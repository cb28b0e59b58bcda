import AlphaTrader.Proof.EngineSettlement
import AlphaTrader.Proof.ResponseParsing

/-!
# Trading over the wire

The engine, the gateway and a venue for immediate-or-cancel orders, joined by two byte streams. The engine
fills the request queue and empties the response queue at its own pace; the gateway encodes requests, and
decodes whatever pieces of responses have arrived; the venue reads whatever pieces of requests have arrived
and reports on the orders it knows. However these steps interleave and wherever the streams are cut, no
`ASSERT` of the gateway fails, no response is refused, and once nothing is under way the positions of every
slot are what the venue has executed for it.
-/

namespace AlphaTrader

/-- The response as the engine pops it. The cast to `Side` keeps the byte whatever it is, and nothing
behind the queue reads it. -/
def GatewayResponse.response (response : GatewayResponse) : OrderResponse where
  clientOrderId := response.clientOrderId
  marketOrderId := response.marketOrderId
  side := if response.side = 83 then .sell else .buy
  price := response.price
  qty := response.qty
  executedQty := response.executedQty
  executionPrice := response.executionPrice
  canceledQty := response.canceledQty
  status := response.status

/-- The venue takes new orders, and nothing else. -/
def Ticket.ofOuch? : OuchRequest → Option Ticket
  | .enter id side qty tickerId _ _ => some { id := id, tickerId := tickerId, side := side, qty := qty }
  | .cancel .. | .replace .. => none

theorem Ticket.ofOuch?_ouch {request : OrderRequest} (htype : request.type = .new) :
    ofOuch? request.ouch = some (ofRequest request) := by
  rw [OrderRequest.ouch, htype]
  rfl

theorem OuchRequest.pass_appending : Incremental.Appending OuchRequest.pass := by
  intro front results data
  cases data with
  | nil => rfl
  | cons type rest =>
      unfold OuchRequest.pass
      dsimp only
      split
      · rfl
      split
      · rfl
      cases OuchRequest.read? ((type :: rest).take (OuchRequest.size type)) with
      | none => rfl
      | some request => simp

theorem OrderGateway.recvPass_appending (layout : OuchLayout) :
    Incremental.Appending (OrderGateway.recvPass layout) := by
  intro front results data
  cases data with
  | nil => rfl
  | cons type rest =>
      unfold OrderGateway.recvPass
      dsimp only
      split
      · rfl
      split
      · rfl
      · simp

/-! ### The floor -/

structure TradingFloor (S F π : Type) (cap : Capacity) where
  engine : TradeEngine S F π cap
  /-- Bytes of the gateway that the venue has not read. -/
  outbound : List UInt8 := []
  /-- What the venue has read of a request that is not complete. -/
  unread : List UInt8 := []
  tickets : List Ticket := []
  /-- Bytes of the venue that the gateway has not received. -/
  inbound : List UInt8 := []
  inboundData : List UInt8 := []
  incomingResponses : List GatewayResponse := []

namespace TradingFloor

open TradeEngine

/-- The engine works on an update, on a response or at the kill switch; the gateway sends a request or
receives bytes; the venue reads bytes or reports. -/
inductive Event (layout : OuchLayout) where
  | update (update : MarketUpdate)
  | disableTrading (slot : Nat)
  | enableTrading (slot : Nat)
  | takeResponse
  | send
  | receive (count : Nat)
  | read (count : Nat)
  | report (wire : WireMessage layout)

variable {S F π : Type} {cap : Capacity} {layout : OuchLayout}

def start (engine : TradeEngine S F π cap) : TradingFloor S F π cap := { engine := engine }

def gateway (layout : OuchLayout) (floor : TradingFloor S F π cap) : OrderGateway where
  layout := layout
  inboundData := floor.inboundData
  incomingResponses := floor.incomingResponses

/-- A step yields `none` where an `ASSERT` of the gateway fails, where the venue cannot read a request, and
where an update reads through a dangling pointer. -/
def step [ObjectPool π] [FeatureEngine F] [Strategy S F cap] (floor : TradingFloor S F π cap) :
    Event layout → Option (TradingFloor S F π cap)
  | .update update => (floor.engine.processUpdate update).map fun engine => { floor with engine := engine }
  | .disableTrading slot => some { floor with engine := floor.engine.setRisk slot RiskManager.disableTrading }
  | .enableTrading slot => some { floor with engine := floor.engine.setRisk slot RiskManager.enableTrading }
  | .takeResponse =>
      match floor.incomingResponses with
      | [] => some floor
      | response :: rest =>
          some { floor with
            engine := floor.engine.processResponse response.response
            incomingResponses := rest }
  | .send =>
      match floor.engine.orderRequests with
      | [] => some floor
      | request :: rest =>
          (OrderGateway.send request).map fun bytes =>
            { floor with
              engine := { floor.engine with orderRequests := rest }
              outbound := floor.outbound ++ bytes }
  | .receive count =>
      ((floor.gateway layout).receive (floor.inbound.take count)).map fun gateway =>
        { floor with
          inbound := floor.inbound.drop count
          inboundData := gateway.inboundData
          incomingResponses := gateway.incomingResponses }
  | .read count =>
      (OuchRequest.readAll (floor.unread ++ floor.outbound.take count)).map fun (requests, rest) =>
        { floor with
          outbound := floor.outbound.drop count
          unread := rest
          tickets := floor.tickets ++ requests.filterMap Ticket.ofOuch? }
  | .report wire =>
      some { floor with
        tickets := Ticket.book floor.tickets wire.message.response.response
        inbound := floor.inbound ++ wire.bytes }

/-- Updates do not use up the ids, the venue reports on orders that it has read, and positions can take
what is executed. -/
def Lawful [ObjectPool π] [FeatureEngine F] [Strategy S F cap] (floor : TradingFloor S F π cap) :
    Event layout → Prop
  | .update update =>
      floor.engine.tickers.length * floor.engine.slots.length ≤ 2 ^ 48
        ∧ ∀ engine ∈ floor.engine.processUpdate update, engine.allocator.counter.toNat ≤ 2 ^ 48
  | .takeResponse => ∀ response ∈ floor.incomingResponses.head?, floor.engine.Bookable response.response
  | .report wire => Ticket.Reports floor.tickets wire.message.response.response
  | .disableTrading _ | .enableTrading _ | .send | .receive _ | .read _ => True

instance [ObjectPool π] [FeatureEngine F] [Strategy S F cap] (floor : TradingFloor S F π cap) :
    (event : Event layout) → Decidable (floor.Lawful event)
  | .update update => inferInstanceAs (Decidable (_ ∧ ∀ engine ∈ floor.engine.processUpdate update, _))
  | .takeResponse => inferInstanceAs (Decidable (∀ response ∈ floor.incomingResponses.head?, _))
  | .report _ => inferInstanceAs (Decidable (Ticket.Reports _ _))
  | .disableTrading _ | .enableTrading _ | .send | .receive _ | .read _ => isTrue trivial

/-! ### What is under way -/

/-- The slots have booked the tickets `booked`; the requests `waiting` are on the wire, and the responses
`coming` will come out of it. What is reported and not yet popped turns `booked` into the tickets of the
venue and of the requests that it has not read. -/
structure Linked (layout : OuchLayout) (floor : TradingFloor S F π cap) (booked : List Ticket)
    (waiting : List OrderRequest) (coming : List GatewayResponse) : Prop where
  settling : floor.engine.Settling booked
  outbound : OuchRequest.readAll (floor.unread ++ floor.outbound) = some (waiting.map OrderRequest.ouch, [])
  newOrders : ∀ request ∈ waiting, request.type = .new
  inbound : Incremental.parse (OrderGateway.recvPass layout) [] (floor.inboundData ++ floor.inbound) =
    some (coming, [])
  due : Run.Along (Run.total Ticket.book) Ticket.Reports booked
    ((floor.incomingResponses ++ coming).map GatewayResponse.response)
  tickets : ((floor.incomingResponses ++ coming).map GatewayResponse.response).foldl Ticket.book booked =
    floor.tickets ++ (waiting ++ floor.engine.orderRequests).map Ticket.ofRequest

variable {floor floor' : TradingFloor S F π cap} {booked : List Ticket}
  {waiting : List OrderRequest} {coming : List GatewayResponse}

theorem Linked.update {engine' : TradeEngine S F π cap} {sent : List OrderRequest}
    (hlinked : floor.Linked layout booked waiting coming)
    (hrequests : engine'.orderRequests = floor.engine.orderRequests ++ sent)
    (hsettling : engine'.Settling (booked ++ sent.map Ticket.ofRequest)) :
    Linked layout { floor with engine := engine' } (booked ++ sent.map Ticket.ofRequest) waiting coming where
  settling := hsettling
  outbound := hlinked.outbound
  newOrders := hlinked.newOrders
  inbound := hlinked.inbound
  due := Ticket.along_reports_append hlinked.due _
  tickets := by
    have hdistinct := hsettling.distinct
    rw [List.map_append] at hdistinct
    rw [Ticket.foldl_book_append, hlinked.tickets,
      Ticket.foldl_book_of_disjoint hlinked.due (List.disjoint_of_nodup_append hdistinct), hrequests]
    simp [List.append_assoc]

theorem Linked.setRisk {op : Slot.Op} {f : RiskManager cap → RiskManager cap} {index : Nat}
    (hlinked : floor.Linked layout booked waiting coming)
    (hquiet : TradeEngine.Quiet op) (hop : ∀ s : Slot cap, s.step op = { s with risk := f s.risk }) :
    Linked layout { floor with engine := floor.engine.setRisk index f } booked waiting coming := by
  have hset : (floor.engine.setRisk index f).Settling booked
      ∧ (floor.engine.setRisk index f).orderRequests = floor.engine.orderRequests := by
    cases hom : floor.engine.orders index with
    | none =>
        have hmissing : floor.engine.setRisk index f = floor.engine := by
          rw [TradeEngine.setRisk, Option.map_eq_none_iff.mp hom]
        rw [hmissing]
        exact ⟨hlinked.settling, rfl⟩
    | some om =>
        obtain ⟨hsettling, -, hrequests⟩ :=
          hlinked.settling.quiet_turn (TradeEngine.turn_setRisk hop) hom hquiet
        exact ⟨hsettling, hrequests⟩
  refine ⟨hset.1, hlinked.outbound, hlinked.newOrders, hlinked.inbound, hlinked.due, ?_⟩
  rw [hset.2]
  exact hlinked.tickets

theorem Linked.takeResponse {response : GatewayResponse} {rest : List GatewayResponse}
    (hlinked : floor.Linked layout booked waiting coming)
    (hincoming : floor.incomingResponses = response :: rest)
    (hbookable : floor.engine.Bookable response.response) :
    Linked layout { floor with
      engine := floor.engine.processResponse response.response
      incomingResponses := rest } (Ticket.book booked response.response) waiting coming := by
  have hdue := hlinked.due
  have htickets := hlinked.tickets
  rw [hincoming, List.cons_append, List.map_cons] at hdue htickets
  refine ⟨hlinked.settling.processResponse hdue.1 hbookable, hlinked.outbound, hlinked.newOrders,
    hlinked.inbound, hdue.2 _ rfl, ?_⟩
  rw [(floor.engine.processResponse_shared response.response).2]
  exact htickets

/-- **The gateway sends**: no `ASSERT` fails, and the request is on the wire. -/
theorem Linked.send {request : OrderRequest} {rest : List OrderRequest}
    (hlinked : floor.Linked layout booked waiting coming) (hrequests : floor.engine.orderRequests = request :: rest) :
    ∃ bytes, OrderGateway.send request = some bytes
      ∧ Linked layout { floor with
          engine := { floor.engine with orderRequests := rest }
          outbound := floor.outbound ++ bytes } booked (waiting ++ [request]) coming := by
  have hall := hlinked.settling.requests
  rw [hrequests] at hall
  obtain ⟨⟨htype, hadmitted⟩, -⟩ := List.forall_mem_cons.mp hall
  obtain ⟨bytes, hrun, hparse⟩ := parse_run (List.forall_mem_singleton.mpr hadmitted)
    (waiting.map OrderRequest.ouch)
  have hsend : OrderGateway.send request = some bytes := by
    rw [run_cons] at hrun
    cases hsent : OrderGateway.send request with
    | none =>
        rw [hsent] at hrun
        cases hrun
    | some sent =>
        rw [hsent] at hrun
        simpa [OrderGateway.run] using hrun
  refine ⟨bytes, hsend, hlinked.settling.takeRequest hrequests, ?_, ?_, hlinked.inbound, hlinked.due, ?_⟩
  · have hread := hlinked.outbound
    rw [OuchRequest.readAll] at hread ⊢
    dsimp only
    rw [← List.append_assoc, Incremental.parse_append OuchRequest.pass_stable, hread, Option.bind_some,
      List.nil_append, hparse, List.map_append]
  · exact List.forall_mem_append.mpr ⟨hlinked.newOrders, List.forall_mem_singleton.mpr htype⟩
  · rw [hlinked.tickets, hrequests, List.append_assoc]
    rfl

/-- **The venue reads** a piece of the stream: whole requests open tickets. -/
theorem Linked.read (hlinked : floor.Linked layout booked waiting coming) (count : Nat) :
    ∃ requests rest waiting', OuchRequest.readAll (floor.unread ++ floor.outbound.take count) =
        some (requests, rest)
      ∧ Linked layout { floor with
          outbound := floor.outbound.drop count
          unread := rest
          tickets := floor.tickets ++ requests.filterMap Ticket.ofOuch? } booked waiting' coming := by
  have hall := hlinked.outbound
  have hcut : floor.unread ++ floor.outbound =
      floor.unread ++ floor.outbound.take count ++ floor.outbound.drop count := by
    rw [List.append_assoc, List.take_append_drop]
  rw [hcut, OuchRequest.readAll] at hall
  cases hfirst : Incremental.parse OuchRequest.pass [] (floor.unread ++ floor.outbound.take count) with
  | none =>
      rw [Incremental.parse_append OuchRequest.pass_stable, hfirst] at hall
      cases hall
  | some done =>
      obtain ⟨requests, rest⟩ := done
      obtain ⟨later, hlater, hsplit⟩ :=
        Incremental.parse_later OuchRequest.pass_stable OuchRequest.pass_appending hfirst hall
      obtain ⟨taken, waiting', rfl, htaken, rfl⟩ := List.map_eq_append_iff.mp hsplit
      obtain ⟨hnew, hnew'⟩ := List.forall_mem_append.mp hlinked.newOrders
      have hopened : requests.filterMap Ticket.ofOuch? = taken.map Ticket.ofRequest := by
        rw [← htaken, List.filterMap_map, ← List.filterMap_eq_map]
        exact List.filterMap_congr fun request hmem => Ticket.ofOuch?_ouch (hnew request hmem)
      refine ⟨requests, rest, waiting', hfirst, hlinked.settling, hlater, hnew', hlinked.inbound,
        hlinked.due, ?_⟩
      rw [hlinked.tickets, hopened]
      simp [List.append_assoc]

/-- **The venue reports** on an order that it has read. -/
theorem Linked.report (hlinked : floor.Linked layout booked waiting coming) (wire : WireMessage layout)
    (hreports : Ticket.Reports floor.tickets wire.message.response.response) :
    Linked layout { floor with
      tickets := Ticket.book floor.tickets wire.message.response.response
      inbound := floor.inbound ++ wire.bytes } booked waiting (coming ++ [wire.message.response]) := by
  have hreported : (floor.incomingResponses ++ (coming ++ [wire.message.response])).map
      GatewayResponse.response = (floor.incomingResponses ++ coming).map GatewayResponse.response
        ++ [wire.message.response.response] := by simp
  refine ⟨hlinked.settling, hlinked.outbound, hlinked.newOrders, ?_, ?_, ?_⟩
  · have hwire := OrderGateway.parse_wires [wire] coming
    rw [List.flatMap_singleton] at hwire
    dsimp only
    rw [← List.append_assoc, Incremental.parse_append OrderGateway.recvPass_stable, hlinked.inbound,
      Option.bind_some, List.nil_append, hwire]
    rfl
  · rw [hreported, Run.along_total_append, hlinked.tickets]
    exact ⟨hlinked.due, hreports.append _, fun _ _ => trivial⟩
  · -- The requests that the venue has not read have other ids.
    have hdistinct := hlinked.settling.distinct
    rw [← Ticket.ids_foldl_book booked ((floor.incomingResponses ++ coming).map GatewayResponse.response),
      hlinked.tickets, List.map_append] at hdistinct
    have hfresh := List.disjoint_of_nodup_append hdistinct hreports.mem_ids
    rw [hreported, List.foldl_append, List.foldl_cons, List.foldl_nil, hlinked.tickets, Ticket.book,
      List.map_append, ← Ticket.book, ← Ticket.book, Ticket.book_of_not_mem hfresh]

/-- **The gateway receives** a piece of the stream: whole responses are queued. -/
theorem Linked.receive (hlinked : floor.Linked layout booked waiting coming) (count : Nat) :
    ∃ gateway coming', (floor.gateway layout).receive (floor.inbound.take count) = some gateway
      ∧ Linked layout { floor with
          inbound := floor.inbound.drop count
          inboundData := gateway.inboundData
          incomingResponses := gateway.incomingResponses } booked waiting coming' := by
  have hall := hlinked.inbound
  have hcut : floor.inboundData ++ floor.inbound =
      floor.inboundData ++ floor.inbound.take count ++ floor.inbound.drop count := by
    rw [List.append_assoc, List.take_append_drop]
  rw [hcut] at hall
  cases hfirst : Incremental.parse (OrderGateway.recvPass layout) []
      (floor.inboundData ++ floor.inbound.take count) with
  | none =>
      rw [Incremental.parse_append OrderGateway.recvPass_stable, hfirst] at hall
      cases hall
  | some done =>
      obtain ⟨responses, rest⟩ := done
      obtain ⟨later, hlater, rfl⟩ := Incremental.parse_later OrderGateway.recvPass_stable
        (OrderGateway.recvPass_appending layout) hfirst hall
      have hqueued := Incremental.parse_front OrderGateway.recvPass_stable
        (OrderGateway.recvPass_appending layout) floor.incomingResponses []
        (floor.inboundData ++ floor.inbound.take count)
      rw [List.append_nil, hfirst, Option.map_some] at hqueued
      refine ⟨{ floor.gateway layout with
        incomingResponses := floor.incomingResponses ++ responses, inboundData := rest }, later, ?_,
        hlinked.settling, hlinked.outbound, hlinked.newOrders, hlater, ?_, ?_⟩
      · rw [OrderGateway.receive_eq]
        exact congrArg _ hqueued
      · dsimp only
        rw [List.append_assoc]
        exact hlinked.due
      · dsimp only
        rw [List.append_assoc]
        exact hlinked.tickets

/-! ### Runs -/

/-- Both sides agree up to what is under way. -/
def Joined (layout : OuchLayout) (floor : TradingFloor S F π cap) : Prop :=
  ∃ booked waiting coming, floor.Linked layout booked waiting coming

/-- Nothing is under way. -/
structure Quiet (floor : TradingFloor S F π cap) : Prop where
  requests : floor.engine.orderRequests = []
  outbound : floor.outbound = []
  unread : floor.unread = []
  inbound : floor.inbound = []
  inboundData : floor.inboundData = []
  responses : floor.incomingResponses = []

variable [ObjectPool π] [FeatureEngine F] [Strategy S F cap]

/-- **A step** keeps both sides joined. -/
theorem Joined.step (hsends : Strategy.SendsOne S F cap) {event : Event layout} (hjoined : floor.Joined layout)
    (hlawful : floor.Lawful event) (hstep : floor.step event = some floor') : floor'.Joined layout := by
  obtain ⟨booked, waiting, coming, hlinked⟩ := hjoined
  cases event with
  | update update =>
      obtain ⟨engine', hprocess, rfl⟩ := Option.map_eq_some_iff.mp hstep
      obtain ⟨sent, hrequests, hsettling⟩ :=
        hlinked.settling.processUpdate hsends hlawful.1 hprocess (hlawful.2 engine' hprocess)
      exact ⟨_, _, _, hlinked.update hrequests hsettling⟩
  | disableTrading slot =>
      obtain rfl := Option.some.inj hstep
      have hop : TradeEngine.Quiet .disableTrading := trivial
      exact ⟨_, _, _, hlinked.setRisk hop fun _ => rfl⟩
  | enableTrading slot =>
      obtain rfl := Option.some.inj hstep
      have hop : TradeEngine.Quiet .enableTrading := trivial
      exact ⟨_, _, _, hlinked.setRisk hop fun _ => rfl⟩
  | takeResponse =>
      cases hincoming : floor.incomingResponses with
      | nil =>
          simp only [TradingFloor.step, hincoming] at hstep
          obtain rfl := Option.some.inj hstep
          exact ⟨_, _, _, hlinked⟩
      | cons response rest =>
          simp only [TradingFloor.step, hincoming] at hstep
          obtain rfl := Option.some.inj hstep
          have hbookable := hlawful response (by rw [hincoming]; rfl)
          exact ⟨_, _, _, hlinked.takeResponse hincoming hbookable⟩
  | send =>
      cases hrequests : floor.engine.orderRequests with
      | nil =>
          simp only [TradingFloor.step, hrequests] at hstep
          obtain rfl := Option.some.inj hstep
          exact ⟨_, _, _, hlinked⟩
      | cons request rest =>
          obtain ⟨bytes, hsend, hlinked'⟩ := hlinked.send hrequests
          simp only [TradingFloor.step, hrequests, hsend, Option.map_some] at hstep
          obtain rfl := Option.some.inj hstep
          exact ⟨_, _, _, hlinked'⟩
  | receive count =>
      obtain ⟨gateway, coming', hreceive, hlinked'⟩ := hlinked.receive count
      simp only [TradingFloor.step, hreceive, Option.map_some] at hstep
      obtain rfl := Option.some.inj hstep
      exact ⟨_, _, _, hlinked'⟩
  | read count =>
      obtain ⟨requests, rest, waiting', hread, hlinked'⟩ := hlinked.read count
      simp only [TradingFloor.step, hread, Option.map_some] at hstep
      obtain rfl := Option.some.inj hstep
      exact ⟨_, _, _, hlinked'⟩
  | report wire =>
      obtain rfl := Option.some.inj hstep
      exact ⟨_, _, _, hlinked.report wire hlawful⟩

/-- A step of the floor is at most one action of the engine. -/
theorem engine_step {event : Event layout} (hstep : floor.step event = some floor') :
    floor'.engine = floor.engine ∨ ∃ action, floor.engine.act action = some floor'.engine := by
  cases event with
  | update update =>
      obtain ⟨engine', hprocess, rfl⟩ := Option.map_eq_some_iff.mp hstep
      exact Or.inr ⟨.update update, hprocess⟩
  | disableTrading slot =>
      obtain rfl := Option.some.inj hstep
      exact Or.inr ⟨.disableTrading slot, rfl⟩
  | enableTrading slot =>
      obtain rfl := Option.some.inj hstep
      exact Or.inr ⟨.enableTrading slot, rfl⟩
  | takeResponse =>
      simp only [TradingFloor.step] at hstep
      split at hstep
      case h_1 =>
          obtain rfl := Option.some.inj hstep
          exact Or.inl rfl
      case h_2 response rest _ =>
          obtain rfl := Option.some.inj hstep
          exact Or.inr ⟨.response response.response, rfl⟩
  | send =>
      simp only [TradingFloor.step] at hstep
      split at hstep
      case h_1 =>
          obtain rfl := Option.some.inj hstep
          exact Or.inl rfl
      case h_2 request rest hrequests =>
          obtain ⟨bytes, -, rfl⟩ := Option.map_eq_some_iff.mp hstep
          refine Or.inr ⟨.takeRequest, ?_⟩
          rw [TradeEngine.act, hrequests]
          rfl
  | receive count =>
      obtain ⟨gateway, -, rfl⟩ := Option.map_eq_some_iff.mp hstep
      exact Or.inl rfl
  | read count =>
      obtain ⟨result, -, rfl⟩ := Option.map_eq_some_iff.mp hstep
      exact Or.inl rfl
  | report wire =>
      obtain rfl := Option.some.inj hstep
      exact Or.inl rfl

/-- A report of the first slot's order, which is filled. -/
def filledWire : WireMessage OrderGateway.packedLayout where
  message := .executed 1 5 10 101
  bytes := [69] ++ List.replicate 8 32 ++ OrderGateway.makeToken 1 ++ beBytes 4 10 ++ beBytes 4 101
    ++ beBytes 8 5
  length_eq := by decide
  head_eq := by decide
  holds := by
    unfold OuchMessage.Holds
    decide

/-- A report of the second slot's order, which is cancelled. -/
def cancelledWire : WireMessage OrderGateway.packedLayout where
  message := .canceled (OrderIdAllocator.makeId 1 2) 10
  bytes := [67] ++ List.replicate 8 32 ++ OrderGateway.makeToken (OrderIdAllocator.makeId 1 2) ++ beBytes 4 10
    ++ [85]
  length_eq := by decide
  head_eq := by decide
  holds := by
    unfold OuchMessage.Holds
    decide

/-- Both slots send an order. Requests and responses are cut in the middle of messages. -/
def crossingRun : List (Event OrderGateway.packedLayout) :=
  [.update { tickerId := 7, orderRef := 1, side := .buy, price := 100, qty := 9 },
    .update { tickerId := 7, orderRef := 2, side := .sell, price := 101, qty := 1 },
    .send, .read 20, .send, .read 40, .read 40, .report cancelledWire, .receive 11, .report filledWire,
    .receive 30, .takeResponse, .receive 40, .takeResponse]

end TradingFloor

end AlphaTrader
