import AlphaTrader.Library.Run
import AlphaTrader.Proof.Reservations

/-!
# Immediate-or-cancel orders settle

A slot that only sends new orders, and a venue that fills each of them in part or whole and cancels
what is left. The venue keeps a ticket per order it has been sent. The reservations of the risk manager
are at all times what the open tickets still call for, so no report of the venue is ever refused, the
books add up to what the tickets say has been executed, and nothing is left when all tickets are
closed.
-/

namespace AlphaTrader

variable {cap : Capacity}

/-- An order as the venue sees it. -/
structure Ticket where
  id : OrderId
  tickerId : TickerId
  side : Side
  qty : Quantity
  filled : Nat := 0
  closed : Bool := false
  deriving DecidableEq, Repr

namespace Ticket

variable {ticket : Ticket} {response : OrderResponse}

def ofRequest (request : OrderRequest) : Ticket :=
  { id := request.clientOrderId, tickerId := request.tickerId, side := request.side, qty := request.qty }

/-- The ticket after a report. A fill of all that is left and a cancel or reject are the last ones. -/
def report (ticket : Ticket) (response : OrderResponse) : Ticket :=
  match response.status with
  | .executed =>
      { ticket with
        filled := ticket.filled + response.executedQty.toNat
        closed := ticket.filled + response.executedQty.toNat = ticket.qty.toNat }
  | .canceled | .rejected => { ticket with closed := true }
  | .accepted | .cancelRejected => ticket

@[simp]
theorem report_id (ticket : Ticket) (response : OrderResponse) :
    (ticket.report response).id = ticket.id := by
  unfold report
  split <;> rfl

@[simp]
theorem report_tickerId (ticket : Ticket) (response : OrderResponse) :
    (ticket.report response).tickerId = ticket.tickerId := by
  unfold report
  split <;> rfl

/-- The reservation that a ticket calls for while it is open. -/
def reservation (ticket : Ticket) : PendingOrder :=
  ⟨ticket.id, ticket.tickerId, ticket.side, UInt32.ofNat (ticket.qty.toNat - ticket.filled)⟩

/-- What the tickets call for. -/
def owed (tickets : List Ticket) : List PendingOrder :=
  (tickets.filter fun ticket => ¬ ticket.closed).map reservation

/-- The executed shares of one ticket, signed, in a ticker. -/
def sharesOf (ticker : TickerId) (ticket : Ticket) : Int :=
  if ticket.tickerId = ticker then
    match ticket.side with
    | .buy => ticket.filled
    | .sell => -ticket.filled
  else 0

/-- The signed sum of the executed shares in a ticker. -/
def shares (ticker : TickerId) (tickets : List Ticket) : Int :=
  (tickets.map (sharesOf ticker)).sum

def executed (tickets : List Ticket) : Nat := (tickets.map filled).sum

theorem sharesOf_ofRequest (ticker : TickerId) (request : OrderRequest) :
    sharesOf ticker (ofRequest request) = 0 := by
  simp only [sharesOf, ofRequest]
  cases request.side <;> simp

theorem owed_append (tickets tickets' : List Ticket) :
    owed (tickets ++ tickets') = owed tickets ++ owed tickets' := by
  simp [owed]

theorem owed_cons (ticket : Ticket) (tickets : List Ticket) :
    owed (ticket :: tickets) = owed [ticket] ++ owed tickets :=
  owed_append [ticket] tickets

theorem owed_open (hopen : ticket.closed = false) : owed [ticket] = [ticket.reservation] := by
  simp [owed, hopen]

theorem owed_closed (hclosed : ticket.closed = true) : owed [ticket] = [] := by
  simp [owed, hclosed]

theorem mem_owed {pending : PendingOrder} {tickets : List Ticket} :
    pending ∈ owed tickets ↔
      ∃ ticket ∈ tickets, ticket.closed = false ∧ ticket.reservation = pending := by
  simp [owed, and_assoc]

theorem owed_split (before after : List Ticket) (ticket : Ticket) :
    (owed (before ++ ticket :: after)).Perm (owed [ticket] ++ owed (before ++ after)) := by
  rw [owed_append, owed_cons, owed_append, ← List.append_assoc, ← List.append_assoc]
  exact List.perm_append_comm.append_right _

theorem shares_split (before after : List Ticket) (ticket : Ticket) (ticker : TickerId) :
    shares ticker (before ++ ticket :: after) =
      sharesOf ticker ticket + shares ticker (before ++ after) := by
  simp only [shares, List.map_append, List.map_cons, List.sum_append, List.sum_cons]
  omega

theorem executed_split (before after : List Ticket) (ticket : Ticket) :
    executed (before ++ ticket :: after) = ticket.filled + executed (before ++ after) := by
  simp only [executed, List.map_append, List.map_cons, List.sum_append, List.sum_cons]
  omega

theorem toNat_reservation (ticket : Ticket) :
    ticket.reservation.reservedQty.toNat = ticket.qty.toNat - ticket.filled := by
  have hlt := ticket.qty.toNat_lt
  simp only [reservation, UInt32.toNat_ofNat']
  omega

theorem owed_report_executed (hstatus : response.status = .executed)
    (hqty : ticket.filled + response.executedQty.toNat ≤ ticket.qty.toNat) :
    owed [ticket.report response] =
      RiskManager.remainder ticket.reservation response.executedQty := by
  have hreserved := ticket.toNat_reservation
  have hle : response.executedQty ≤ ticket.reservation.reservedQty := by
    rw [UInt32.le_iff_toNat_le]
    omega
  have hleft : (ticket.reservation.reservedQty - response.executedQty).toNat =
      ticket.qty.toNat - (ticket.filled + response.executedQty.toNat) := by
    rw [UInt32.toNat_sub_of_le _ _ hle]
    omega
  by_cases hdone : ticket.filled + response.executedQty.toNat = ticket.qty.toNat
  · rw [owed_closed (by simp [report, hstatus, hdone]), RiskManager.remainder, if_pos]
    apply UInt32.toNat_inj.mp
    rw [hleft, UInt32.toNat_zero]
    omega
  · rw [owed_open (by simp [report, hstatus, hdone]), RiskManager.remainder, if_neg]
    · have hqty' : UInt32.ofNat (ticket.qty.toNat - (ticket.filled + response.executedQty.toNat)) =
          ticket.reservation.reservedQty - response.executedQty := by
        rw [← hleft, UInt32.ofNat_toNat]
      simp only [report, hstatus, reservation] at hqty' ⊢
      rw [hqty']
    · intro hzero
      rw [hzero, UInt32.toNat_zero] at hleft
      omega

theorem remainder_reservation_eq_nil {qty : Quantity}
    (hqty : ticket.filled + qty.toNat = ticket.qty.toNat) :
    RiskManager.remainder ticket.reservation qty = [] := by
  rw [RiskManager.remainder, if_pos]
  have heq : ticket.reservation.reservedQty = qty := by
    apply UInt32.toNat_inj.mp
    rw [toNat_reservation]
    omega
  rw [heq, UInt32.sub_self]

theorem sharesOf_report_executed (hstatus : response.status = .executed) (ticker : TickerId) :
    sharesOf ticker (ticket.report response) = sharesOf ticker ticket
      + if ticker = ticket.tickerId then ticket.side.signed response.executedQty else 0 := by
  by_cases hticker : ticket.tickerId = ticker
  · simp only [sharesOf, report, hstatus, hticker, if_true, Side.signed]
    cases ticket.side <;> push_cast <;> omega
  · simp [sharesOf, report, hstatus, hticker, Ne.symm hticker]

theorem report_of_not_executed (ticket : Ticket) (hstatus : response.status ≠ .executed) :
    ∃ closed, ticket.report response = { ticket with closed := closed } := by
  unfold report
  split
  case h_1 hexecuted => exact absurd hexecuted hstatus
  case h_2 => exact ⟨true, rfl⟩
  case h_3 => exact ⟨true, rfl⟩
  case h_4 => exact ⟨ticket.closed, rfl⟩
  case h_5 => exact ⟨ticket.closed, rfl⟩

theorem unfilled_report (hopen : (ticket.report response).closed = false)
    (hqty : response.status = .executed →
      ticket.filled + response.executedQty.toNat ≤ ticket.qty.toNat)
    (hunfilled : ticket.filled < ticket.qty.toNat) :
    (ticket.report response).filled < (ticket.report response).qty.toNat := by
  unfold report at hopen ⊢
  split at hopen
  case h_1 hstatus =>
      have hne : ticket.filled + response.executedQty.toNat ≠ ticket.qty.toNat := of_decide_eq_false hopen
      exact lt_of_le_of_ne (hqty hstatus) hne
  case h_2 => cases hopen
  case h_3 => cases hopen
  case h_4 => exact hunfilled
  case h_5 => exact hunfilled

end Ticket

namespace PnLTracker

variable {pnl : PnLTracker cap} {ticker : TickerId} {side : Side} {price : Price} {qty : Quantity}

/-- The range checks of an execution pass. -/
def InRange (pnl : PnLTracker cap) (ticker : TickerId) (side : Side) (price : Price)
    (qty : Quantity) : Prop :=
  ∀ position ∈ pnl.get ticker,
    ((applyExecution position side price qty).bind updateUnrealized).isSome

instance : Decidable (pnl.InRange ticker side price qty) :=
  inferInstanceAs (Decidable (∀ position ∈ pnl.get ticker, _))

theorem onExecution_ne_none (hknown : (pnl.get ticker).isSome) (hprice : price ≠ priceInvalid)
    (hqty : qty ≠ 0) (hrange : pnl.InRange ticker side price qty) :
    pnl.onExecution ticker side price qty ≠ none := by
  obtain ⟨position, hget⟩ := Option.isSome_iff_exists.mp hknown
  obtain ⟨⟨index, entry⟩, hfind, rfl⟩ := Option.map_eq_some_iff.mp hget
  obtain ⟨next, hnext⟩ := Option.isSome_iff_exists.mp (hrange _ hget)
  obtain ⟨applied, happly, hupdate⟩ := Option.bind_eq_some_iff.mp hnext
  have hvalid : ¬ (price = priceInvalid ∨ qty = 0) := not_or.mpr ⟨hprice, hqty⟩
  simp [onExecution, hfind, hvalid, happly, hupdate]

end PnLTracker

/-- A slot and the tickets of the orders it has sent. -/
structure Desk (cap : Capacity) where
  slot : Slot cap
  tickets : List Ticket := []

namespace Desk

open scoped List

variable {d : Desk cap} {op : Slot.Op} {ticket : Ticket} {response : OrderResponse}

/-- An order that is sent gets a ticket, and a report goes to the ticket of its order. -/
def step (d : Desk cap) (op : Slot.Op) : Desk cap :=
  { slot := d.slot.step op
    tickets :=
      match op with
      | .sendNewOrder request position room =>
          if (d.slot.sendNewOrder request position room).1 then
            d.tickets ++ [Ticket.ofRequest (d.slot.submission request)]
          else d.tickets
      | .onOrderResponse response =>
          d.tickets.map fun ticket =>
            if ticket.id = response.clientOrderId then ticket.report response else ticket
      | _ => d.tickets }

/-- The reports that may come for an order: executions within what is open, at prices and in amounts
that the positions can take, and a cancel of all that is left. -/
def MayReport (d : Desk cap) (ticket : Ticket) (response : OrderResponse) : Prop :=
  ticket.closed = false ∧
    match response.status with
    | .accepted | .rejected => True
    | .executed =>
        response.executedQty ≠ 0
          ∧ ticket.filled + response.executedQty.toNat ≤ ticket.qty.toNat
          ∧ response.executionPrice ≠ priceInvalid
          ∧ d.slot.pnl.InRange ticket.tickerId ticket.side response.executionPrice
            response.executedQty
    | .canceled => ticket.filled + response.canceledQty.toNat = ticket.qty.toNat
    | .cancelRejected => False

/-- The slot sends new orders only, the venue reports on open tickets, and ids are numbered. -/
def ImmediateOrCancel (d : Desk cap) (op : Slot.Op) : Prop :=
  d.slot.Numbered op ∧
    match op with
    | .sendCancel .. | .sendReplace .. => False
    | .onOrderResponse response =>
        ∃ ticket ∈ d.tickets, ticket.id = response.clientOrderId ∧ d.MayReport ticket response
    | _ => True

/-! ### What holds throughout -/

/-- The reservations are what the open tickets call for, and the books are what the tickets say. -/
structure Settling (d : Desk cap) : Prop where
  matched : d.slot.Matched
  owed : d.slot.risk.pending ~ Ticket.owed d.tickets
  distinct : (d.tickets.map Ticket.id).Nodup
  issued : ∀ ticket ∈ d.tickets, d.slot.Issued ticket.id
  unfilled : ∀ ticket ∈ d.tickets, ticket.closed = false → ticket.filled < ticket.qty.toNat
  registered : ∀ ticker, (d.slot.risk.findTicker ticker).isSome → (d.slot.pnl.get ticker).isSome
  known : ∀ ticket ∈ d.tickets, (d.slot.pnl.get ticket.tickerId).isSome
  filledQty : d.slot.filledQty.toNat = Ticket.executed d.tickets % 2 ^ 64
  netQty : ∀ ticker, d.slot.pnl.netQty ticker = Ticket.shares ticker d.tickets

/-- **An open ticket** is backed by a live order and a reservation of just what it calls for. -/
theorem Settling.exists_order (hsettling : d.Settling) (hmem : ticket ∈ d.tickets)
    (hopen : ticket.closed = false) :
    ∃ before order after pendingBefore pendingAfter,
      d.slot.OrderAt ticket.id before order after ∧ order.state.Live
        ∧ order.request.tickerId = ticket.tickerId ∧ order.request.side = ticket.side
        ∧ order.filledQty.toNat + (ticket.qty.toNat - ticket.filled) = order.request.qty.toNat
        ∧ d.slot.risk.SplitAt ticket.id pendingBefore ticket.reservation pendingAfter := by
  have hpending : ticket.reservation ∈ d.slot.risk.pending :=
    hsettling.owed.symm.subset (Ticket.mem_owed.mpr ⟨ticket, hmem, hopen, rfl⟩)
  obtain ⟨order, horder, hlive, hexpected⟩ :=
    Slot.mem_expectedAll.mp (hsettling.matched.matched.subset hpending)
  obtain ⟨before, after, hat⟩ := hsettling.matched.exists_orderAt horder
  obtain ⟨pendingBefore, pendingAfter, hsplit⟩ := hsettling.matched.exists_splitAt hpending
  have hid : order.id = ticket.id := congrArg PendingOrder.clientOrderId hexpected
  have hqty := (hsettling.matched.corresponds.positive order horder hlive).1
  rw [hexpected, Ticket.toNat_reservation] at hqty
  refine ⟨before, order, after, pendingBefore, pendingAfter, hid ▸ hat, hlive, ?_, ?_, ?_, hsplit⟩
  · exact congrArg PendingOrder.tickerId hexpected
  · exact congrArg PendingOrder.side hexpected
  · omega

/-- **No report is refused.** -/
theorem Settling.accepts (hsettling : d.Settling) (hmem : ticket ∈ d.tickets)
    (hid : ticket.id = response.clientOrderId) (hmay : d.MayReport ticket response) :
    (d.slot.onOrderResponse response).1 = true := by
  obtain ⟨hopen, hmay⟩ := hmay
  obtain ⟨before, order, after, pendingBefore, pendingAfter, hat, hlive, hticker, hside, hqty, hsplit⟩ :=
    hsettling.exists_order hmem hopen
  have hunfilled := hsettling.unfilled ticket hmem hopen
  have hreserved := ticket.toNat_reservation
  rw [hid] at hat hsplit
  have hfinished : ¬ order.state.Finished := fun hfinished => hfinished.not_live hlive
  unfold Slot.onOrderResponse
  rw [hat.find_eq]
  cases hstatus : response.status with
  | accepted =>
      dsimp only
      rcases hlive with hstate | hstate | hstate <;> simp [hstate]
  | cancelRejected => simp only [hstatus] at hmay
  | executed =>
      simp only [hstatus] at hmay
      obtain ⟨hpositive, hwithin, hprice, hrange⟩ := hmay
      have hpnl := PnLTracker.onExecution_ne_none (hsettling.known ticket hmem) hprice hpositive hrange
      rw [← hticker, ← hside] at hpnl
      have hfits : order.filledQty.toNat + response.executedQty.toNat ≤ order.request.qty.toNat := by
        omega
      obtain ⟨⟨risk, pnl⟩, hrisk⟩ := Option.ne_none_iff_exists'.mp
        (hsettling.matched.onOrderResponse_ne_none hat hstatus hpositive hfinished hfits hpnl)
      simp [Slot.onExecuted, hpositive, hfinished, Nat.not_lt.mpr hfits, hrisk]
  | canceled =>
      simp only [hstatus] at hmay
      have hpositive : response.canceledQty ≠ 0 := by
        intro hzero
        rw [hzero, UInt32.toNat_zero] at hmay
        omega
      have hle : response.canceledQty ≤ ticket.reservation.reservedQty := by
        rw [UInt32.le_iff_toNat_le]
        omega
      have hstate : ¬ (order.state = .completed ∨ order.state = .dead) := fun hends =>
        hfinished (hends.elim Or.inl fun hdead => Or.inr (Or.inr hdead))
      have hrisk : d.slot.risk.onOrderResponse response d.slot.pnl = _ :=
        RiskManager.onOrderResponse_canceled hsplit hstatus hpositive hle
      simp [Slot.onCanceled, hstate, hpositive, hrisk]
  | rejected =>
      simp [RiskManager.onOrderResponse_rejected hsplit hstatus]

/-- The books follow a ticket from before a report to after it. -/
structure Follows (s s' : Slot cap) (ticket ticket' : Ticket) : Prop where
  pending : ∀ rest, s.risk.pending ~ Ticket.owed [ticket] ++ rest →
    s'.risk.pending ~ Ticket.owed [ticket'] ++ rest
  tickers : s'.pnl.entries.map PnLEntry.tickerId = s.pnl.entries.map PnLEntry.tickerId
  netQty : ∀ ticker, s'.pnl.netQty ticker + Ticket.sharesOf ticker ticket =
    s.pnl.netQty ticker + Ticket.sharesOf ticker ticket'
  filledQty : (s'.filledQty.toNat + ticket.filled) % 2 ^ 64 =
    (s.filledQty.toNat + ticket'.filled) % 2 ^ 64

theorem follows_of_not_executed {s s' : Slot cap} (hstatus : response.status ≠ .executed)
    (hpending : ∀ rest, s.risk.pending ~ Ticket.owed [ticket] ++ rest →
      s'.risk.pending ~ Ticket.owed [ticket.report response] ++ rest)
    (hpnl : s'.pnl = s.pnl) (hfilled : s'.filledQty = s.filledQty) :
    Follows s s' ticket (ticket.report response) := by
  obtain ⟨closed, hreport⟩ := ticket.report_of_not_executed hstatus
  refine ⟨hpending, by rw [hpnl], ?_, ?_⟩
  · intro ticker
    rw [hreport, hpnl]
    rfl
  · rw [hreport, hfilled]

/-- What the risk manager books is what the ticket takes. -/
theorem Settling.follows_booked {s' : Slot cap} (hsettling : d.Settling) (hmem : ticket ∈ d.tickets)
    (hid : ticket.id = response.clientOrderId) (hmay : d.MayReport ticket response)
    (hbooked : d.slot.risk.onOrderResponse response d.slot.pnl = some (s'.risk, s'.pnl))
    (hfilled : s'.filledQty = d.slot.filledQty
      + if response.status = .executed then response.executedQty.toUInt64 else 0) :
    Follows d.slot s' ticket (ticket.report response) := by
  obtain ⟨hopen, hmay⟩ := hmay
  obtain ⟨-, -, -, pendingBefore, pendingAfter, -, -, -, -, -, hsplit⟩ :=
    hsettling.exists_order hmem hopen
  obtain ⟨before, pending, after, hfound, -, -, hmatch⟩ := RiskManager.onOrderResponse_spec hbooked
  obtain rfl : pending = ticket.reservation := by
    have heq := hfound.find_eq.symm.trans (hid ▸ hsplit.find_eq)
    exact congrArg Prod.snd (Option.some.inj heq)
  -- What is put in the place of the reservation joins the rest.
  have hreplaced : ∀ {middle : List PendingOrder}, s'.risk.pending ~ before ++ middle ++ after →
      Ticket.owed [ticket.report response] = middle →
      ∀ rest, d.slot.risk.pending ~ Ticket.owed [ticket] ++ rest →
        s'.risk.pending ~ Ticket.owed [ticket.report response] ++ rest := by
    rintro middle hperm rfl rest hrest
    rw [Ticket.owed_open hopen, hfound.split] at hrest
    exact Table.perm_replace hrest hperm
  cases hstatus : response.status with
  | accepted =>
      simp only [hstatus, reduceCtorEq, if_false, UInt64.add_zero] at hmatch hfilled
      refine follows_of_not_executed (by simp [hstatus]) ?_ hmatch.2 hfilled
      have hreport : ticket.report response = ticket := by simp [Ticket.report, hstatus]
      rw [hreport, hmatch.1]
      exact fun rest hrest => hrest
  | cancelRejected => simp only [hstatus] at hmay
  | executed =>
      simp only [hstatus, if_true] at hmatch hmay hfilled
      obtain ⟨-, -, hexec, hperm⟩ := hmatch
      refine ⟨hreplaced hperm (Ticket.owed_report_executed hstatus hmay.2.1),
        PnLTracker.tickers_onExecution hexec, ?_, ?_⟩
      · intro ticker
        rw [PnLTracker.netQty_onExecution hexec, Ticket.sharesOf_report_executed hstatus]
        rw [add_right_comm, add_assoc]
        rfl
      · rw [hfilled, UInt64.toNat_add, UInt32.toNat_toUInt64]
        simp only [Ticket.report, hstatus]
        omega
  | canceled =>
      simp only [hstatus, reduceCtorEq, if_false, UInt64.add_zero] at hmatch hmay hfilled
      obtain ⟨-, -, hpnl, hperm⟩ := hmatch
      refine follows_of_not_executed (by simp [hstatus]) (hreplaced hperm ?_) hpnl hfilled
      rw [Ticket.remainder_reservation_eq_nil hmay, Ticket.owed_closed (by simp [Ticket.report, hstatus])]
  | rejected =>
      simp only [hstatus, reduceCtorEq, if_false, UInt64.add_zero] at hmatch hfilled
      obtain ⟨hpnl, hperm⟩ := hmatch
      rw [← List.append_nil before] at hperm
      refine follows_of_not_executed (by simp [hstatus]) (hreplaced hperm ?_) hpnl hfilled
      rw [Ticket.owed_closed (by simp [Ticket.report, hstatus])]

/-- **A report** is booked as the ticket takes it. -/
theorem Settling.follows (hsettling : d.Settling) (hmem : ticket ∈ d.tickets)
    (hid : ticket.id = response.clientOrderId) (hmay : d.MayReport ticket response) :
    Follows d.slot (d.slot.onOrderResponse response).2 ticket (ticket.report response) := by
  have htaken := hsettling.accepts hmem hid hmay
  rcases Slot.onOrderResponse_books (s := d.slot) response with
    ⟨hrisk, hpnl, hfilled, hsilent⟩ | ⟨-, hbooked, hfilled⟩
  · obtain ⟨hopen, hmay⟩ := hmay
    have hunfilled := hsettling.unfilled ticket hmem hopen
    rcases hsilent htaken with hstatus | hstatus | ⟨hstatus, hzero⟩
    · have hreport : ticket.report response = ticket := by simp [Ticket.report, hstatus]
      refine follows_of_not_executed (by simp [hstatus]) ?_ hpnl hfilled
      rw [hreport, hrisk]
      exact fun rest hrest => hrest
    · simp only [hstatus] at hmay
    · simp only [hstatus, hzero, UInt32.toNat_zero] at hmay
      omega
  · exact hsettling.follows_booked hmem hid hmay hbooked hfilled

/-! ### Steps -/

/-- The run is balanced: the positions take the executions, and cancels are for all that is open. -/
theorem Settling.balanced (hsettling : d.Settling) (hioc : d.ImmediateOrCancel op) :
    d.slot.Balanced op := by
  refine ⟨hioc.1, ?_⟩
  cases op with
  | sendReplace => exact hioc.2.elim
  | onOrderResponse response =>
      obtain ⟨ticket, hmem, hid, hopen, hmay⟩ := hioc.2
      obtain ⟨before, order, after, -, -, hat, -, hticker, hside, hqty, -⟩ :=
        hsettling.exists_order hmem hopen
      intro found hfound
      obtain rfl : (before.length, order) = found :=
        Option.some.inj ((hid ▸ hat.find_eq).symm.trans hfound)
      constructor
      · intro hstatus _ hpositive _
        simp only [hstatus] at hmay
        rw [hticker, hside]
        exact PnLTracker.onExecution_ne_none (hsettling.known ticket hmem) hmay.2.2.1 hpositive
          hmay.2.2.2
      · intro hstatus _
        simp only [hstatus] at hmay
        dsimp only
        omega
  | _ => trivial

theorem Settling.of_same {d' : Desk cap} (hsettling : d.Settling) (hmatched : d'.slot.Matched)
    (htickets : d'.tickets = d.tickets) (hsame : Slot.Same d.slot d'.slot)
    (hcounter : d.slot.allocator.counter.toNat ≤ d'.slot.allocator.counter.toNat)
    (hentries : d'.slot.pnl.entries.map PnLEntry.tickerId =
      d.slot.pnl.entries.map PnLEntry.tickerId)
    (hfilled : d'.slot.filledQty = d.slot.filledQty) : d'.Settling := by
  have hget : ∀ ticker, (d.slot.pnl.get ticker).isSome → (d'.slot.pnl.get ticker).isSome := by
    intro ticker
    rw [PnLTracker.isSome_get_iff, PnLTracker.isSome_get_iff, hentries]
    exact id
  refine ⟨hmatched, ?_, ?_, ?_, ?_, ?_, ?_, ?_, ?_⟩
  · rw [hsame.pending, htickets]
    exact hsettling.owed
  · rw [htickets]
    exact hsettling.distinct
  · rw [htickets]
    exact fun ticket hmem => (hsettling.issued ticket hmem).mono hsame.slot hcounter
  · rw [htickets]
    exact hsettling.unfilled
  · intro ticker hknown
    rw [RiskManager.findTicker, hsame.tickers] at hknown
    exact hget ticker (hsettling.registered ticker hknown)
  · rw [htickets]
    exact fun ticket hmem => hget _ (hsettling.known ticket hmem)
  · rw [hfilled, htickets]
    exact hsettling.filledQty
  · intro ticker
    rw [hsame.netQty, htickets]
    exact hsettling.netQty ticker

/-- **A new order** gets a ticket that calls for its reservation. -/
theorem Settling.placed {request : OrderRequest} {position : Position} {limits : RiskLimits}
    {before after : List OMOrder} (hsettling : d.Settling) (hfits : d.slot.CounterFits)
    (hmatched : (d.slot.placed request before after).Matched)
    (hpassed : d.slot.risk.Passed (d.slot.submission request) position limits) :
    Settling { slot := d.slot.placed request before after
               tickets := d.tickets ++ [Ticket.ofRequest (d.slot.submission request)] } := by
  have hcounter : d.slot.allocator.counter.toNat ≤
      (d.slot.placed request before after).allocator.counter.toNat :=
    (Nat.le_succ _).trans (Slot.counter_succ hfits).ge
  have hissued : (d.slot.placed request before after).Issued d.slot.nextId :=
    Slot.issued_nextId hfits hsettling.matched.counter_pos rfl rfl
  have hqty : 0 < request.qty.toNat :=
    Nat.pos_of_ne_zero fun hzero => hpassed.qty (UInt32.toNat_inj.mp hzero)
  have hknown : (d.slot.pnl.get (d.slot.submission request).tickerId).isSome :=
    hsettling.registered _ (Option.isSome_iff_exists.mpr ⟨limits, hpassed.ticker⟩)
  refine ⟨hmatched, ?_, ?_, ?_, ?_, hsettling.registered, ?_, ?_, ?_⟩
  · rw [Ticket.owed_append, Ticket.owed_open rfl]
    refine hsettling.owed.append (List.Perm.of_eq ?_)
    simp [Ticket.reservation, Ticket.ofRequest, Slot.reservation]
  · rw [List.map_append, List.map_singleton]
    refine hsettling.distinct.append (List.nodup_singleton _) ?_
    rw [List.disjoint_singleton]
    intro hmem
    obtain ⟨ticket, hmem, hid⟩ := List.mem_map.mp hmem
    have hissued := hsettling.issued ticket hmem
    rw [hid] at hissued
    exact Slot.nextId_not_issued hfits hissued
  · refine List.forall_mem_append.mpr ⟨?_, List.forall_mem_singleton.mpr hissued⟩
    exact fun ticket hmem => (hsettling.issued ticket hmem).mono rfl hcounter
  · exact List.forall_mem_append.mpr
      ⟨hsettling.unfilled, List.forall_mem_singleton.mpr fun _ => hqty⟩
  · exact List.forall_mem_append.mpr ⟨hsettling.known, List.forall_mem_singleton.mpr hknown⟩
  · rw [Ticket.executed_split, List.append_nil]
    exact hsettling.filledQty.trans (congrArg (· % 2 ^ 64) (Nat.zero_add _).symm)
  · intro ticker
    rw [Ticket.shares_split, List.append_nil, Ticket.sharesOf_ofRequest, zero_add]
    exact hsettling.netQty ticker

/-- **A report** keeps the books in line with the tickets. -/
theorem Settling.reported (hsettling : d.Settling) (hmem : ticket ∈ d.tickets)
    (hid : ticket.id = response.clientOrderId) (hmay : d.MayReport ticket response)
    (hmatched : (d.slot.step (.onOrderResponse response)).Matched) :
    (d.step (.onOrderResponse response)).Settling := by
  have heffect := Slot.effect_step d.slot (.onOrderResponse response)
  have hfollows := hsettling.follows hmem hid hmay
  obtain ⟨before, after, hsplit, hothers⟩ := Table.exists_split_of_mem hsettling.distinct hmem
  have htickets : (d.step (.onOrderResponse response)).tickets =
      before ++ ticket.report response :: after := by
    rw [hid] at hothers
    simp only [step, hsplit]
    exact Table.map_update_split before after hothers hid fun ticket => ticket.report response
  have hmiddle : d.tickets = before ++ [ticket] ++ after := by simp [hsplit]
  have hget : ∀ ticker, (d.slot.pnl.get ticker).isSome →
      ((d.slot.onOrderResponse response).2.pnl.get ticker).isSome := by
    intro ticker
    rw [PnLTracker.isSome_get_iff, PnLTracker.isSome_get_iff, hfollows.tickers]
    exact id
  refine ⟨hmatched, ?_, ?_, ?_, ?_, ?_, ?_, ?_, ?_⟩
  · rw [htickets]
    refine (hfollows.pending _ ?_).trans (Ticket.owed_split _ _ _).symm
    refine hsettling.owed.trans ?_
    rw [hsplit]
    exact Ticket.owed_split _ _ _
  · have hids : (d.step (.onOrderResponse response)).tickets.map Ticket.id =
        d.tickets.map Ticket.id := by
      simp [htickets, hsplit]
    rw [hids]
    exact hsettling.distinct
  · have hissued : ∀ ticket ∈ d.tickets, (d.step (.onOrderResponse response)).slot.Issued ticket.id :=
      fun ticket hmem => (hsettling.issued ticket hmem).mono heffect.slot_eq
        (heffect.counter_le (Or.inr (d.slot.counter_onOrderResponse response)))
    rw [htickets]
    refine Table.forall_mem_split hmiddle hissued ?_
    rw [Ticket.report_id]
    exact hissued ticket hmem
  · rw [htickets]
    refine Table.forall_mem_split hmiddle hsettling.unfilled ?_
    intro hopen
    refine Ticket.unfilled_report hopen ?_ (hsettling.unfilled ticket hmem hmay.1)
    intro hstatus
    have hexecuted := hmay.2
    simp only [hstatus] at hexecuted
    exact hexecuted.2.1
  · intro ticker hknown
    refine hget ticker (hsettling.registered ticker ?_)
    rw [RiskManager.findTicker, ← heffect.tickers]
    exact hknown
  · rw [htickets]
    refine Table.forall_mem_split hmiddle (fun ticket hmem => hget _ (hsettling.known ticket hmem)) ?_
    rw [Ticket.report_tickerId]
    exact hget _ (hsettling.known ticket hmem)
  · have hold := hsettling.filledQty
    have hbooked := hfollows.filledQty
    have hlt := (d.slot.onOrderResponse response).2.filledQty.toNat_lt
    rw [hsplit, Ticket.executed_split] at hold
    rw [htickets, Ticket.executed_split]
    change (d.slot.onOrderResponse response).2.filledQty.toNat = _
    omega
  · intro ticker
    have hold := hsettling.netQty ticker
    have hbooked := hfollows.netQty ticker
    rw [hsplit, Ticket.shares_split] at hold
    rw [htickets, Ticket.shares_split]
    change (d.slot.onOrderResponse response).2.pnl.netQty ticker = _
    omega

/-- **A step** keeps reservations, positions and tickets in line. -/
theorem settling_step (hsettling : d.Settling) (hioc : d.ImmediateOrCancel op) :
    (d.step op).Settling := by
  have hmatched := Slot.matched_step hsettling.matched (hsettling.balanced hioc)
  have heffect := Slot.effect_step d.slot op
  have hcounter := heffect.counter_le hioc.1
  cases op with
  | sendNewOrder request position room =>
      rcases Slot.sendNewOrder_cases (s := d.slot) request position room with
        ⟨hrefused, huntouched⟩ | ⟨limits, before, evicted, after, hpassed, -, -, hsent⟩
      · refine hsettling.of_same hmatched ?_ huntouched.same hcounter (congrArg _ ?_) ?_
        · simp [step, hrefused]
        · exact congrArg (fun s => s.pnl.entries) huntouched.rest
        · exact congrArg (fun s => s.filledQty) huntouched.rest
      · have hstep : d.step (.sendNewOrder request position room) =
            { slot := d.slot.placed request before after
              tickets := d.tickets ++ [Ticket.ofRequest (d.slot.submission request)] } := by
          simp [step, Slot.step, Slot.apply, hsent]
        have hslot : d.slot.step (.sendNewOrder request position room) =
            d.slot.placed request before after := congrArg Desk.slot hstep
        rw [hslot] at hmatched
        rw [hstep]
        exact hsettling.placed (Slot.counterFits_of_drawn hioc.1 (by rw [hslot]; rfl)) hmatched hpassed
  | sendCancel => exact hioc.2.elim
  | sendReplace => exact hioc.2.elim
  | onOrderResponse response =>
      obtain ⟨ticket, hmem, hid, hmay⟩ := hioc.2
      exact hsettling.reported hmem hid hmay hmatched
  | onMark ticker price =>
      cases heffect with
      | idle hsame =>
          have hmarked : (d.slot.step (.onMark ticker price)).pnl.entries.map PnLEntry.tickerId =
              d.slot.pnl.entries.map PnLEntry.tickerId
                ∧ (d.slot.step (.onMark ticker price)).filledQty = d.slot.filledQty := by
            simp only [Slot.step, Slot.apply]
            split
            case h_1 => exact ⟨rfl, rfl⟩
            case h_2 hmark => exact ⟨PnLTracker.tickers_onMark hmark, rfl⟩
          exact hsettling.of_same hmatched rfl hsame hcounter hmarked.1 hmarked.2
  | disableTrading =>
      cases heffect with
      | idle hsame => exact hsettling.of_same hmatched rfl hsame hcounter rfl rfl
  | enableTrading =>
      cases heffect with
      | idle hsame => exact hsettling.of_same hmatched rfl hsame hcounter rfl rfl
  | otherSlot =>
      cases heffect with
      | idle hsame => exact hsettling.of_same hmatched rfl hsame hcounter rfl rfl

/-! ### Runs -/

/-- The books of a desk: each open ticket has a reservation of what is left of it, closed ones have
none, fills and positions are the sums over the tickets, and with all tickets closed nothing is
pending. -/
structure Settled (d : Desk cap) : Prop where
  reserved : ∀ ticket ∈ d.tickets, ticket.closed = false →
    ∃ index pending, d.slot.risk.findPending ticket.id = some (index, pending)
      ∧ pending.tickerId = ticket.tickerId ∧ pending.side = ticket.side
      ∧ pending.reservedQty.toNat + ticket.filled = ticket.qty.toNat
  released : ∀ ticket ∈ d.tickets, ticket.closed = true →
    d.slot.risk.findPending ticket.id = none
  filledQty : d.slot.filledQty.toNat = Ticket.executed d.tickets % 2 ^ 64
  netQty : ∀ ticker, d.slot.pnl.netQty ticker = Ticket.shares ticker d.tickets
  flat : (∀ ticket ∈ d.tickets, ticket.closed = true) →
    d.slot.risk.pendingCount = 0 ∧ d.slot.activeCount = 0
      ∧ ∀ ticker, d.slot.risk.pendingExposure ticker = 0

theorem Settling.settled (hsettling : d.Settling) : d.Settled where
  reserved := by
    intro ticket hmem hopen
    obtain ⟨-, -, -, pendingBefore, pendingAfter, -, -, -, -, -, hsplit⟩ :=
      hsettling.exists_order hmem hopen
    refine ⟨pendingBefore.length, ticket.reservation, hsplit.find_eq, rfl, rfl, ?_⟩
    rw [Ticket.toNat_reservation]
    exact Nat.sub_add_cancel (hsettling.unfilled ticket hmem hopen).le
  released := by
    intro ticket hmem hclosed
    apply Table.find_eq_none_iff.mpr
    intro pending hpending hid
    obtain ⟨other, hother, hopen, rfl⟩ := Ticket.mem_owed.mp (hsettling.owed.subset hpending)
    obtain rfl : other = ticket := List.inj_on_of_nodup_map hsettling.distinct hother hmem hid
    rw [hclosed] at hopen
    cases hopen
  filledQty := hsettling.filledQty
  netQty := hsettling.netQty
  flat := by
    intro hclosed
    have hpending : d.slot.risk.pending = [] := by
      apply List.eq_nil_iff_forall_not_mem.mpr
      intro pending hpending
      obtain ⟨ticket, hmem, hopen, -⟩ := Ticket.mem_owed.mp (hsettling.owed.subset hpending)
      rw [hclosed ticket hmem] at hopen
      cases hopen
    have hcount : d.slot.risk.pendingCount = 0 := by rw [RiskManager.pendingCount, hpending]; rfl
    refine ⟨hcount, hsettling.matched.corresponds.counts.trans hcount, ?_⟩
    intro ticker
    rw [RiskManager.pendingExposure, hpending]
    rfl

/-- A report that comes in is accepted. -/
def Accepted (d : Desk cap) (op : Slot.Op) : Prop :=
  ∀ response, op = .onOrderResponse response → (d.slot.onOrderResponse response).1 = true

theorem Settling.accepted (hsettling : d.Settling) (hioc : d.ImmediateOrCancel op) :
    d.Accepted op := by
  rintro response rfl
  obtain ⟨ticket, hmem, hid, hmay⟩ := hioc.2
  exact hsettling.accepts hmem hid hmay

theorem settling_fresh {s : Slot cap} (hfresh : s.Fresh) (hfilled : s.filledQty = 0)
    (hregistered : ∀ ticker, (s.risk.findTicker ticker).isSome → (s.pnl.get ticker).isSome) :
    Settling { slot := s } where
  matched := hfresh.matched
  owed := List.Perm.of_eq hfresh.pending
  distinct := List.nodup_nil
  issued := List.forall_mem_nil _
  unfilled := List.forall_mem_nil _
  registered := hregistered
  known := List.forall_mem_nil _
  filledQty := congrArg UInt64.toNat hfilled
  netQty := hfresh.netQty

/-- **Immediate-or-cancel orders settle.** Whatever the order of submissions and of the reports on
different orders, every report is accepted, and the books follow the tickets in every state. -/
theorem immediateOrCancel_settles {s : Slot cap} {ops : List Slot.Op} (hfresh : s.Fresh)
    (hfilled : s.filledQty = 0)
    (hregistered : ∀ ticker, (s.risk.findTicker ticker).isSome → (s.pnl.get ticker).isSome)
    (halong : Run.Along (Run.total step) ImmediateOrCancel { slot := s } ops) :
    Run.Along (Run.total step) Accepted { slot := s } ops
      ∧ (ops.foldl step { slot := s }).Settled := by
  have hstart := settling_fresh hfresh hfilled hregistered
  constructor
  · refine Run.Along.of_invariant Settling ?_ ?_ hstart halong
    · intro d op d' hsettling hioc heq
      obtain rfl := Option.some.inj heq
      exact settling_step hsettling hioc
    · exact fun d op hsettling hioc => hsettling.accepted hioc
  · apply Settling.settled
    exact Run.invariant_total Settling (fun d op hsettling hioc => settling_step hsettling hioc)
      hstart halong

instance (d : Desk cap) (ticket : Ticket) :
    (response : OrderResponse) → Decidable (d.MayReport ticket response)
  | ⟨_, _, _, _, _, _, _, _, .accepted⟩ => inferInstanceAs (Decidable (_ ∧ True))
  | ⟨_, _, _, _, _, _, _, _, .rejected⟩ => inferInstanceAs (Decidable (_ ∧ True))
  | ⟨_, _, _, _, _, _, _, _, .executed⟩ => inferInstanceAs (Decidable (_ ∧ _ ∧ _ ∧ _ ∧ _))
  | ⟨_, _, _, _, _, _, _, _, .canceled⟩ => inferInstanceAs (Decidable (_ ∧ _ = _))
  | ⟨_, _, _, _, _, _, _, _, .cancelRejected⟩ => inferInstanceAs (Decidable (_ ∧ False))

instance (d : Desk cap) : (op : Slot.Op) → Decidable (d.ImmediateOrCancel op)
  | .sendCancel .. => inferInstanceAs (Decidable (_ ∧ False))
  | .sendReplace .. => inferInstanceAs (Decidable (_ ∧ False))
  | .onOrderResponse _ => inferInstanceAs (Decidable (_ ∧ ∃ ticket ∈ d.tickets, _))
  | .sendNewOrder .. => inferInstanceAs (Decidable (_ ∧ True))
  | .onMark .. => inferInstanceAs (Decidable (_ ∧ True))
  | .disableTrading => inferInstanceAs (Decidable (_ ∧ True))
  | .enableTrading => inferInstanceAs (Decidable (_ ∧ True))
  | .otherSlot .. => inferInstanceAs (Decidable (_ ∧ True))

/-- Reports on two orders cross; a third order takes the place of the one that is filled first and is
rejected. -/
def crossedReports : List Slot.Op :=
  [ .sendNewOrder { tickerId := 7, side := .buy, price := 10, qty := 60 } {} true,
    .sendNewOrder { tickerId := 7, side := .sell, price := 12, qty := 30 } {} true,
    .onOrderResponse { clientOrderId := 1, status := .accepted },
    .onOrderResponse (Slot.execution 2 10 12),
    .onOrderResponse (Slot.execution 1 60 10),
    .sendNewOrder { tickerId := 7, side := .buy, price := 10, qty := 20 } {} true,
    .onOrderResponse { clientOrderId := 2, canceledQty := 20, status := .canceled },
    .onOrderResponse { clientOrderId := 3, status := .rejected } ]

theorem immediateOrCancel_settles_crossedReports :
    (crossedReports.foldl step { slot := Slot.limitedSlot }).slot.pnl.netQty 7 = 50
      ∧ (crossedReports.foldl step { slot := Slot.limitedSlot }).Settled :=
  ⟨by decide +kernel, (immediateOrCancel_settles Slot.limitedSlot_fresh rfl
    (by simp [Slot.limitedSlot, RiskManager.findTicker, PnLTracker.get, PnLTracker.find, Table.find])
    (by decide +kernel)).2⟩

end Desk

end AlphaTrader
