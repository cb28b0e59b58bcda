import AlphaTrader.Proof.FillConservation
import AlphaTrader.Proof.PositionAccounting

/-!
# Money against the exchange

The total result of a slot against the cash account that the exchange keeps for it. Every execution moves
cash once, at the exchange, and reaches the positions through a response. With all responses delivered the
total is the cash that has come in and gone out and the open positions at their marks, up to the rounding
of the average prices.
-/

namespace AlphaTrader

namespace PnLTracker

variable {cap : Capacity} {ledger : Ledger} {position : Position}

/-- What a share of the position counts for: its mark, or its average if it has not been marked. -/
def worth (position : Position) : Price :=
  if position.markPrice = priceInvalid then position.avgEntryPrice else position.markPrice

/-- The open positions at what they count for. -/
def marketValue (pnl : PnLTracker cap) : Int :=
  (pnl.entries.map fun entry => entry.position.netQty * (worth entry.position).toInt).sum

theorem Accounts.result_eq (h : Accounts ledger position) :
    position.realizedPnl + position.unrealizedPnl =
      ledger.cash + position.netQty * (worth position).toInt + ledger.discrepancy position := by
  rw [h.marked, Ledger.discrepancy, worth]
  by_cases hflat : position.netQty = 0
  · simp [hflat]
  by_cases hmark : position.markPrice = priceInvalid
  · simp only [hflat, hmark, or_true, if_true]
    ring
  · simp only [hflat, hmark, or_false, if_false]
    ring

theorem foldl_result (entries : List PnLEntry) (start : Int) :
    entries.foldl (fun total entry => total + entry.position.realizedPnl + entry.position.unrealizedPnl) start =
      start + (entries.map fun entry => entry.position.realizedPnl + entry.position.unrealizedPnl).sum := by
  induction entries generalizing start with
  | nil => simp
  | cons entry entries ih =>
      rw [List.foldl_cons, ih, List.map_cons, List.sum_cons]
      ring

theorem abs_sum_sub_le {α : Type} (items : List α) {f g h : α → Int}
    (hbound : ∀ item ∈ items, |f item - g item| ≤ h item) :
    |(items.map f).sum - (items.map g).sum| ≤ (items.map h).sum := by
  induction items with
  | nil => simp
  | cons item items ih =>
      obtain ⟨hitem, hitems⟩ := List.forall_mem_cons.mp hbound
      simp only [List.map_cons, List.sum_cons]
      calc |f item + (items.map f).sum - (g item + (items.map g).sum)|
          = |(f item - g item) + ((items.map f).sum - (items.map g).sum)| := by ring_nf
        _ ≤ |f item - g item| + |(items.map f).sum - (items.map g).sum| := abs_add_le _ _
        _ ≤ h item + (items.map h).sum := add_le_add hitem (ih hitems)

/-- **The total** is the cash of all ledgers and the open positions at what they count for. -/
theorem totalPnL_within {pnl : PnLTracker cap} (hdistinct : (pnl.entries.map PnLEntry.tickerId).Nodup)
    {ledgers : TickerId → Ledger} (hsound : ∀ ticker, Audit.Sound (ledgers ticker) (pnl.get ticker))
    {total : Int} (htotal : pnl.totalPnL = some total) :
    |total - ((pnl.entries.map fun entry => (ledgers entry.tickerId).cash).sum + pnl.marketValue)|
      ≤ (pnl.entries.map fun entry => (ledgers entry.tickerId).slack).sum := by
  have hsum : total = (pnl.entries.map fun entry =>
      entry.position.realizedPnl + entry.position.unrealizedPnl).sum := by
    rw [totalPnL, foldl_result, zero_add] at htotal
    split at htotal
    · exact (Option.some.inj htotal).symm
    · cases htotal
  have hvalue : (pnl.entries.map fun entry => (ledgers entry.tickerId).cash).sum + pnl.marketValue =
      (pnl.entries.map fun entry => (ledgers entry.tickerId).cash
        + entry.position.netQty * (worth entry.position).toInt).sum := by
    rw [List.sum_map_add, marketValue]
  rw [hsum, hvalue]
  apply abs_sum_sub_le
  intro entry hmem
  have hget : pnl.get entry.tickerId = some entry.position := by
    have hlookup := (Table.lookup_eq_some_iff hdistinct).mpr ⟨hmem, rfl⟩
    obtain ⟨found, hfound, rfl⟩ := Option.map_eq_some_iff.mp hlookup
    rw [get, find, hfound]
    rfl
  have haccounts := hsound entry.tickerId
  rw [hget] at haccounts
  have haccounts : Accounts (ledgers entry.tickerId) entry.position := haccounts
  rw [haccounts.result_eq, add_sub_cancel_left]
  exact haccounts.rounding

end PnLTracker

/-- Only a mark or a response changes the positions. -/
theorem Slot.pnl_step {cap : Capacity} {op : Slot.Op} (s : Slot cap)
    (hop : ∀ response, op ≠ .onOrderResponse response) :
    (s.step op).pnl = s.pnl ∨ ∃ ticker price, s.pnl.onMark ticker price = some (s.step op).pnl := by
  cases op with
  | sendNewOrder request position room =>
      left
      rcases sendNewOrder_cases (s := s) request position room with
        ⟨-, huntouched⟩ | ⟨limits, before, evicted, after, -, -, -, hsent⟩
      · exact congrArg (fun s => s.pnl) huntouched.rest
      · exact congrArg (fun result => result.2.pnl) hsent
  | sendCancel id qty room =>
      left
      simp only [step, apply, sendCancel]
      split
      · split
        · rfl
        · split <;> rfl
      · rfl
  | sendReplace id price qty room =>
      left
      rcases sendReplace_cases (s := s) id price qty room with
        ⟨-, huntouched, -⟩ | ⟨before, order, after, -, -, -, ⟨-, hsent⟩ | ⟨-, _, _, _, -, hsent⟩⟩
      · exact congrArg (fun s => s.pnl) huntouched.rest
      · exact congrArg (fun result => result.2.pnl) hsent
      · exact congrArg (fun result => result.2.pnl) hsent
  | onOrderResponse response => exact absurd rfl (hop response)
  | onMark ticker price =>
      simp only [step, apply]
      split
      case h_1 => exact Or.inl rfl
      case h_2 pnl hmark => exact Or.inr ⟨ticker, price, hmark⟩
  | disableTrading | enableTrading | otherSlot => exact Or.inl rfl

/-- Nothing is registered while a slot trades. -/
theorem Slot.tickers_step {cap : Capacity} (s : Slot cap) (op : Slot.Op) :
    (s.step op).pnl.entries.map PnLEntry.tickerId = s.pnl.entries.map PnLEntry.tickerId := by
  by_cases hop : ∃ response, op = .onOrderResponse response
  · obtain ⟨response, rfl⟩ := hop
    rcases onOrderResponse_books (s := s) response with ⟨-, hsame, -⟩ | ⟨-, hrisk, -⟩
    · exact congrArg (fun pnl => pnl.entries.map PnLEntry.tickerId) hsame
    · by_cases hstatus : response.status = .executed
      · obtain ⟨before, pending, after, -, -, -, hmatch⟩ := RiskManager.onOrderResponse_spec hrisk
        simp only [hstatus] at hmatch
        exact PnLTracker.tickers_onExecution hmatch.2.2.1
      · exact congrArg (fun pnl => pnl.entries.map PnLEntry.tickerId)
          (RiskManager.pnl_onOrderResponse hrisk hstatus)
  · rcases s.pnl_step fun response heq => hop ⟨response, heq⟩ with hsame | ⟨ticker, price, hmark⟩
    · rw [hsame]
    · exact PnLTracker.tickers_onMark hmark

namespace Market

open PnLTracker (Audit)

variable {cap : Capacity} {m m' : Market cap} {event : Event} {ticker : TickerId} {report : Report}
  {reports rest booked : List Report}

/-! ### The account at the exchange -/

/-- The cash that an execution moves. -/
def cashOf (report : Report) : Int :=
  -(report.side.signed report.response.executedQty * report.response.executionPrice.toInt)

def cash (reports : List Report) : Int := (reports.map cashOf).sum

/-- What the executions of a ticker amount to. -/
def statement (ticker : TickerId) (reports : List Report) : PnLTracker.Ledger :=
  (reports.filter fun report => report.tickerId = ticker).foldl (fun ledger report =>
    ledger.book report.side report.response.executionPrice report.response.executedQty) {}

theorem statement_concat (ticker : TickerId) (reports : List Report) (report : Report) :
    statement ticker (reports ++ [report]) =
      if report.tickerId = ticker then (statement ticker reports).book report.side
        report.response.executionPrice report.response.executedQty
      else statement ticker reports := by
  rw [statement, List.filter_append, List.foldl_append]
  split
  case isTrue hticker => rw [List.filter_cons_of_pos (by simpa using hticker)]; rfl
  case isFalse hticker => rw [List.filter_cons_of_neg (by simpa using hticker)]; rfl

/-- Each execution is in the statement of one ticker. -/
theorem sum_cash_statement {tickers : List TickerId} (hdistinct : tickers.Nodup)
    (hmem : ∀ report ∈ reports, report.tickerId ∈ tickers) :
    (tickers.map fun ticker => (statement ticker reports).cash).sum = cash reports := by
  induction reports using List.reverseRecOn with
  | nil => simp [statement, cash]
  | append_singleton reports report ih =>
      obtain ⟨hreports, hreport⟩ := List.forall_mem_append.mp hmem
      have hadded : ∀ ticker, (statement ticker (reports ++ [report])).cash =
          (statement ticker reports).cash + if report.tickerId = ticker then cashOf report else 0 := by
        intro ticker
        rw [statement_concat]
        split
        · exact sub_eq_add_neg _ _
        · exact (add_zero _).symm
      have honce : (tickers.map fun ticker => if report.tickerId = ticker then cashOf report else 0).sum =
          cashOf report := by
        rw [List.sum_map_eq_nsmul_single report.tickerId _ fun other hne _ => if_neg (Ne.symm hne),
          List.count_eq_one_of_mem hdistinct (hreport report (List.mem_singleton_self _)), one_smul, if_pos rfl]
      simp only [hadded]
      rw [List.sum_map_add, ih hreports, honce, cash, cash, List.map_append, List.sum_append,
        List.map_singleton, List.sum_singleton]

/-! ### Runs -/

/-- The executions among the responses on their way. -/
def executions (reports : List Report) : List Report :=
  reports.filter fun report => report.response.status = .executed

theorem executions_append (reports reports' : List Report) :
    executions (reports ++ reports') = executions reports ++ executions reports' :=
  List.filter_append ..

theorem executions_eq_nil (hnone : ∀ report ∈ reports, report.response.status ≠ .executed) :
    executions reports = [] :=
  List.filter_eq_nil_iff.mpr fun report hmem => by simpa using hnone report hmem

/-- The positions come from the executions `booked`, and the other executions are on their way. -/
structure Booked (m : Market cap) (booked : List Report) : Prop where
  complete : booked ++ executions m.responses = m.executed
  distinct : (m.client.pnl.entries.map PnLEntry.tickerId).Nodup
  sound : ∀ ticker, Audit.Sound (statement ticker booked) (m.client.pnl.get ticker)
  registered : ∀ report ∈ booked, report.tickerId ∈ m.client.pnl.entries.map PnLEntry.tickerId

theorem Booked.of_pnl (hbooked : m.Booked booked) (hpnl : m'.client.pnl = m.client.pnl)
    (hcomplete : booked ++ executions m'.responses = m'.executed) : m'.Booked booked where
  complete := hcomplete
  distinct := hpnl ▸ hbooked.distinct
  sound := hpnl ▸ hbooked.sound
  registered := hpnl ▸ hbooked.registered

/-- An orderly execution is booked as the exchange has reported it. -/
theorem Sound.onExecution_delivered (hsound : m.Sound) (hresponses : m.responses = report :: rest)
    (hstatus : report.response.status = .executed)
    (hpnl : m.client.pnl.onExecution report.tickerId report.side report.response.executionPrice
      report.response.executedQty ≠ none) :
    m.client.pnl.onExecution report.tickerId report.side report.response.executionPrice
      report.response.executedQty = some (m.client.step (.onOrderResponse report.response)).pnl := by
  have hmem : report ∈ m.responses := by simp [hresponses]
  have hpositive := hsound.positive report hmem hstatus
  have hqtyPos : 0 < report.response.executedQty.toNat :=
    Nat.pos_of_ne_zero fun hzero => hpositive (UInt32.toNat_inj.mp hzero)
  have hdue : report.response.executedQty.toNat ≤ m.due report.response.clientOrderId := by
    rw [due, hresponses, inFlight_cons, if_pos ⟨hstatus, rfl⟩]
    omega
  obtain ⟨order, horder, pending, hpending, hid, hid', hlive, hroom, hreserved⟩ :=
    hsound.backed report.response.clientOrderId (by omega)
  obtain ⟨before, after, hat⟩ := hsound.keyed.exists_orderAt horder
  obtain ⟨pendingBefore, pendingAfter, hsplit⟩ := hsound.keyed.exists_splitAt hpending
  rw [hid] at hat
  rw [hid'] at hsplit
  obtain ⟨hticker, hside⟩ := hsound.sameReport pending hpending report hmem hstatus hid'.symm
  rw [hticker, hside] at hpnl ⊢
  obtain ⟨pnl, hexec⟩ := Option.ne_none_iff_exists'.mp hpnl
  have hle : report.response.executedQty ≤ pending.reservedQty := UInt32.le_iff_toNat_le.mpr (by omega)
  have hrisk := RiskManager.onOrderResponse_executed hsplit hstatus hpositive hle hexec
  obtain ⟨-, -, -, -, -, -, hbooked⟩ :=
    Slot.step_executed hat hstatus hpositive (fun hfinished => hfinished.not_live hlive) (by omega) hrisk
  rw [hexec, hbooked]

theorem Booked.deliver (hbooked : m.Booked booked) (hsound : m.Sound) (horderly : m.Orderly .deliver)
    (hresponses : m.responses = report :: rest) :
    ∃ booked', Booked { m with
      client := m.client.step (.onOrderResponse report.response)
      responses := rest } booked' := by
  have hcomplete := hbooked.complete
  rw [hresponses] at hcomplete
  by_cases hstatus : report.response.status = .executed
  · have hexec := hsound.onExecution_delivered hresponses hstatus
      (horderly.2 report (by simp [hresponses]) hstatus)
    generalize m.client.step (.onOrderResponse report.response) = client at hexec
    have htickers := PnLTracker.tickers_onExecution hexec
    obtain ⟨-, -, position, -, -, hget, -⟩ := PnLTracker.onExecution_spec hexec
    refine ⟨booked ++ [report], ?_, ?_, fun ticker => ?_, ?_⟩
    · rw [← hcomplete, executions, executions, List.filter_cons_of_pos (by simpa using hstatus),
        List.append_assoc]
      rfl
    · dsimp only
      rw [htickers]
      exact hbooked.distinct
    · have hbooks := Audit.step_books ticker ⟨m.client.pnl, statement ticker booked⟩
        (.onExecution report.tickerId report.side report.response.executionPrice report.response.executedQty)
      have hstep := Audit.sound_books hbooks (hbooked.sound ticker)
      simp only [Audit.step, PnLTracker.step, PnLTracker.apply, hexec, Option.getD_some, Option.isSome_some,
        and_true] at hstep
      rw [statement_concat]
      exact hstep
    · intro report' hmem
      dsimp only
      rw [htickers]
      rcases List.mem_append.mp hmem with hold | hnew
      · exact hbooked.registered report' hold
      · rw [List.mem_singleton.mp hnew, ← PnLTracker.isSome_get_iff, hget]
        rfl
  · have hpnl : (m.client.step (.onOrderResponse report.response)).pnl = m.client.pnl := by
      rcases Slot.onOrderResponse_books (s := m.client) report.response with ⟨-, hsame, -⟩ | ⟨-, hrisk, -⟩
      · exact hsame
      · exact RiskManager.pnl_onOrderResponse hrisk hstatus
    refine ⟨booked, hbooked.of_pnl hpnl ?_⟩
    rw [← hcomplete, executions, executions, List.filter_cons_of_neg (by simpa using hstatus)]

/-- A mark leaves the statements as they are. -/
theorem Booked.mark (hbooked : m.Booked booked) {client : Slot cap} {price : Price}
    (hmark : m.client.pnl.onMark ticker price = some client.pnl) : Booked { m with client := client } booked := by
  have htickers := PnLTracker.tickers_onMark hmark
  refine ⟨hbooked.complete, ?_, fun other => ?_, ?_⟩
  · dsimp only
    rw [htickers]
    exact hbooked.distinct
  · have hbooks := Audit.step_books other ⟨m.client.pnl, statement other booked⟩ (.onMark ticker price)
    have hstep := Audit.sound_books hbooks (hbooked.sound other)
    simp only [Audit.step, PnLTracker.step, PnLTracker.apply, hmark, Option.getD_some] at hstep
    exact hstep
  · dsimp only
    rw [htickers]
    exact hbooked.registered

theorem Booked.step (hbooked : m.Booked booked) (hsound : m.Sound) (horderly : m.Orderly event)
    (hstep : m.step event = some m') : ∃ booked', m'.Booked booked' := by
  cases event with
  | client op =>
      by_cases hop : ∃ response, op = .onOrderResponse response
      · obtain ⟨response, rfl⟩ := hop
        cases hstep
      · have hne : ∀ response, op ≠ .onOrderResponse response := fun response heq => hop ⟨response, heq⟩
        have hclient : m.step (.client op) = some { m with client := m.client.step op } := by
          cases op with
          | onOrderResponse response => exact absurd rfl (hne response)
          | _ => rfl
        obtain rfl := Option.some.inj (hclient.symm.trans hstep)
        rcases m.client.pnl_step hne with hpnl | ⟨ticker, price, hmark⟩
        · exact ⟨booked, hbooked.of_pnl hpnl hbooked.complete⟩
        · exact ⟨booked, hbooked.mark hmark⟩
  | process verdict =>
      simp only [Market.step] at hstep
      split at hstep
      case h_1 => cases hstep
      case h_2 request rest houtgoing =>
          split at hstep
          case h_1 => cases hstep
          case h_2 exchange responses hhandle =>
              obtain rfl := Option.some.inj hstep
              refine ⟨booked, hbooked.of_pnl rfl ?_⟩
              have hanswers : executions (responses.map fun response =>
                  (⟨response, request.tickerId, request.side⟩ : Report)) = [] := by
                have hunused : ∀ id ∈ Exchange.created request, m.exchange id = none := fun id hmem =>
                  hsound.opensFresh.unused id (by simp [houtgoing, hmem])
                have hfull : ∀ qty, verdict = .cancel qty → ∀ order ∈ m.exchange request.clientOrderId,
                    order.openQty ≤ qty.toNat := by
                  rintro qty rfl order hopen
                  exact horderly.2 request (by simp [houtgoing]) order hopen
                apply executions_eq_nil
                intro report hmem
                obtain ⟨response, hresponse, rfl⟩ := List.mem_map.mp hmem
                exact ((Exchange.handle_spec hunused hfull hhandle).2 response hresponse).1
              dsimp only
              rw [executions_append, hanswers, List.append_nil]
              exact hbooked.complete
  | execute id qty price =>
      simp only [Market.step] at hstep
      split at hstep
      case h_1 => cases hstep
      case h_2 order hopen =>
          split at hstep
          case isTrue => cases hstep
          case isFalse =>
              obtain rfl := Option.some.inj hstep
              refine ⟨booked, hbooked.of_pnl rfl ?_⟩
              dsimp only
              rw [executions_append, ← List.append_assoc, hbooked.complete]
              rfl
  | deliver =>
      simp only [Market.step] at hstep
      split at hstep
      case h_1 => cases hstep
      case h_2 report rest hresponses =>
          obtain rfl := Option.some.inj hstep
          exact hbooked.deliver hsound horderly hresponses

/-- **The total result is the exchange's cash and the open positions.** -/
theorem cash_conserved {events : List Event} (hstart : m.Start)
    (hdistinct : (m.client.pnl.entries.map PnLEntry.tickerId).Nodup)
    (halong : Run.Along Market.step Orderly m events) (hrun : events.foldlM Market.step m = some m') :
    ∃ booked, booked ++ executions m'.responses = m'.executed
      ∧ (m'.responses = [] → booked = m'.executed)
      ∧ ∀ total, m'.client.pnl.totalPnL = some total →
        |total - (cash booked + m'.client.pnl.marketValue)|
          ≤ (m'.client.pnl.entries.map fun entry => (statement entry.tickerId booked).slack).sum := by
  have hfresh : m.Booked [] := by
    refine ⟨by rw [hstart.responses, hstart.executed]; rfl, hdistinct, fun ticker => ?_, by simp⟩
    cases hget : m.client.pnl.get ticker with
    | none => rfl
    | some position =>
        obtain ⟨⟨index, entry⟩, hfind, rfl⟩ := Option.map_eq_some_iff.mp hget
        obtain ⟨before, after, hentries, -⟩ := Table.exists_split_of_find hfind
        dsimp only
        rw [hstart.client.flat entry (by simp [hentries])]
        exact PnLTracker.accounts_fresh
  have hkept : ∀ (m : Market cap) event m', (m.Sound ∧ ∃ booked, m.Booked booked) → m.Orderly event →
      m.step event = some m' → m'.Sound ∧ ∃ booked, m'.Booked booked := by
    rintro m event m' ⟨hsound, booked, hbooked⟩ horderly hstep
    exact ⟨sound_step hsound horderly hstep, hbooked.step hsound horderly hstep⟩
  obtain ⟨-, booked, hbooked⟩ := Run.invariant hkept ⟨hstart.sound, [], hfresh⟩ halong hrun
  refine ⟨booked, hbooked.complete, fun hdelivered => ?_, fun total htotal => ?_⟩
  · have hcomplete := hbooked.complete
    rw [hdelivered] at hcomplete
    simpa [executions] using hcomplete
  · have hwithin := PnLTracker.totalPnL_within hbooked.distinct hbooked.sound htotal
    have hcash := sum_cash_statement hbooked.distinct hbooked.registered
    rw [List.map_map] at hcash
    rw [← hcash]
    exact hwithin

/-- An order fills at two prices whose average is not a whole number, and the position is marked. -/
def markedRun : List Event :=
  [.client (.sendNewOrder { tickerId := 7, side := .buy, price := 11, qty := 65 } {} true),
    .process .accept, .execute 1 40 10, .execute 1 25 11, .deliver, .deliver, .deliver,
    .client (.onMark 7 12)]

theorem cash_conserved_markedRun :
    ∃ m', markedRun.foldlM Market.step quietMarket = some m' ∧ m'.client.pnl.totalPnL = some 130
      ∧ cash m'.executed = -675 ∧ m'.client.pnl.marketValue = 780
      ∧ |130 - (cash m'.executed + m'.client.pnl.marketValue)|
        ≤ (m'.client.pnl.entries.map fun entry => (statement entry.tickerId m'.executed).slack).sum := by
  have hrun : (markedRun.foldlM Market.step quietMarket).any (fun m' =>
      m'.responses.isEmpty && m'.client.pnl.totalPnL = some 130 && cash m'.executed = -675
        && m'.client.pnl.marketValue = 780) = true := by decide +kernel
  obtain ⟨m', hrun, hcheck⟩ := (Option.any_eq_true _ _).mp hrun
  simp only [Bool.and_eq_true, List.isEmpty_iff, decide_eq_true_eq] at hcheck
  obtain ⟨⟨⟨hdelivered, htotal⟩, hcash⟩, hvalue⟩ := hcheck
  obtain ⟨booked, -, hall, hwithin⟩ := cash_conserved quietMarket_start (by decide)
    (by decide +kernel : Run.Along Market.step Orderly quietMarket markedRun) hrun
  refine ⟨m', hrun, htotal, hcash, hvalue, ?_⟩
  rw [← hall hdelivered]
  exact hwithin 130 htotal

end Market

end AlphaTrader
