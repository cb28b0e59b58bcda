import AlphaTrader.Trading.Exchange

/-!
# The exchange ahead of its requests

The slot knows an order by the id of its last request, the exchange by that of the last request it has
worked on. Working off the requests on their way, as if all were accepted, gives the orders under the
ids that the slot knows. Whatever the exchange really decides, no order has more open than that.
-/

namespace AlphaTrader

namespace Exchange

variable {exchange exchange' : Exchange} {request : OrderRequest} {requests : List OrderRequest}
  {id : OrderId}

/-- The id that a request opens. -/
def created (request : OrderRequest) : List OrderId :=
  match request.type with
  | .new => [request.clientOrderId]
  | .cancel => []
  | .replace => [request.newClientOrderId]

/-- The orders once all requests on their way are accepted. -/
def settle (exchange : Exchange) (requests : List OrderRequest) : Exchange :=
  requests.foldl enroll exchange

@[simp]
theorem settle_nil : exchange.settle [] = exchange := rfl

@[simp]
theorem settle_cons : exchange.settle (request :: requests) = (exchange.enroll request).settle requests :=
  rfl

theorem settle_concat : exchange.settle (requests ++ [request]) = (exchange.settle requests).enroll request := by
  simp [settle]

/-- The requests on their way open new ids. -/
structure OpensFresh (exchange : Exchange) (requests : List OrderRequest) : Prop where
  nodup : (requests.flatMap created).Nodup
  unused : ∀ id ∈ requests.flatMap created, exchange id = none

/-- Every order is there with at least as much open. -/
def Within (exchange exchange' : Exchange) : Prop :=
  ∀ id order, exchange id = some order → ∃ order', exchange' id = some order'
    ∧ order'.tickerId = order.tickerId ∧ order'.side = order.side ∧ order.openQty ≤ order'.openQty

theorem Within.refl (exchange : Exchange) : exchange.Within exchange :=
  fun _ order heq => ⟨order, heq, rfl, rfl, le_refl _⟩

theorem Within.eq_none (hwithin : exchange.Within exchange') (hnone : exchange' id = none) :
    exchange id = none := by
  cases heq : exchange id with
  | none => rfl
  | some order =>
      obtain ⟨order', heq', -⟩ := hwithin id order heq
      rw [hnone] at heq'
      cases heq'

/-! ### Working off the requests -/

theorem enroll_new (htype : request.type = .new) : exchange.enroll request =
    Function.update exchange request.clientOrderId
      (some ⟨request.tickerId, request.side, request.qty.toNat⟩) := by
  simp [enroll, htype]

theorem enroll_cancel (htype : request.type = .cancel) : exchange.enroll request = exchange := by
  simp [enroll, htype]

theorem enroll_replace_of_none (htype : request.type = .replace)
    (hnone : exchange request.clientOrderId = none) : exchange.enroll request = exchange := by
  simp [enroll, htype, hnone]

theorem enroll_replace_of_some {order : ExchangeOrder} (htype : request.type = .replace)
    (hsome : exchange request.clientOrderId = some order) : exchange.enroll request =
      Function.update (Function.update exchange request.clientOrderId none)
        request.newClientOrderId (some order) := by
  simp [enroll, htype, hsome]

theorem created_new (htype : request.type = .new) : created request = [request.clientOrderId] := by
  simp [created, htype]

theorem created_cancel (htype : request.type = .cancel) : created request = [] := by
  simp [created, htype]

theorem created_replace (htype : request.type = .replace) :
    created request = [request.newClientOrderId] := by
  simp [created, htype]

theorem enroll_of_notMem (exchange : Exchange) (hnotMem : id ∉ created request) :
    exchange.enroll request id = exchange id ∨ exchange.enroll request id = none := by
  cases htype : request.type with
  | new =>
      rw [created_new htype, List.mem_singleton] at hnotMem
      rw [enroll_new htype, Function.update_of_ne hnotMem]
      exact Or.inl rfl
  | cancel =>
      rw [enroll_cancel htype]
      exact Or.inl rfl
  | replace =>
      rw [created_replace htype, List.mem_singleton] at hnotMem
      cases hmoved : exchange request.clientOrderId with
      | none =>
          rw [enroll_replace_of_none htype hmoved]
          exact Or.inl rfl
      | some order =>
          rw [enroll_replace_of_some htype hmoved, Function.update_of_ne hnotMem]
          by_cases hid : id = request.clientOrderId
          · subst hid
            exact Or.inr (Function.update_self _ _ _)
          · exact Or.inl (Function.update_of_ne hid _ _)

theorem OpensFresh.enroll (hfresh : exchange.OpensFresh (request :: requests)) :
    (exchange.enroll request).OpensFresh requests := by
  have hnodup := hfresh.nodup
  rw [List.flatMap_cons, List.nodup_append] at hnodup
  refine ⟨hnodup.2.1, fun id hmem => ?_⟩
  have hnone : exchange id = none := hfresh.unused id (by simp_all)
  have hnotMem : id ∉ created request := fun h => hnodup.2.2 id h id hmem rfl
  rcases enroll_of_notMem exchange hnotMem with heq | heq
  · rw [heq, hnone]
  · exact heq

theorem settle_of_notMem (exchange : Exchange) (hnotMem : id ∉ requests.flatMap created) :
    exchange.settle requests id = exchange id ∨ exchange.settle requests id = none := by
  induction requests generalizing exchange with
  | nil => exact Or.inl rfl
  | cons request requests ih =>
      rw [List.flatMap_cons, List.mem_append, not_or] at hnotMem
      rw [settle_cons]
      rcases ih (exchange.enroll request) hnotMem.2 with heq | heq
      · rw [heq]
        exact enroll_of_notMem exchange hnotMem.1
      · exact Or.inr heq

theorem settle_eq_none (hnotMem : id ∉ requests.flatMap created) (hnone : exchange id = none) :
    exchange.settle requests id = none := by
  rcases settle_of_notMem exchange hnotMem with heq | heq
  · rw [heq, hnone]
  · exact heq

theorem Within.enroll (hwithin : exchange.Within exchange')
    (hunused : ∀ id ∈ created request, exchange' id = none) :
    (exchange.enroll request).Within (exchange'.enroll request) := by
  intro id order heq
  cases htype : request.type with
  | new =>
      rw [enroll_new htype] at heq ⊢
      by_cases hid : id = request.clientOrderId
      · subst hid
        rw [Function.update_self] at heq ⊢
        exact ⟨order, heq, rfl, rfl, le_refl _⟩
      · rw [Function.update_of_ne hid] at heq ⊢
        exact hwithin id order heq
  | cancel =>
      rw [enroll_cancel htype] at heq ⊢
      exact hwithin id order heq
  | replace =>
      rw [created_replace htype, List.forall_mem_singleton] at hunused
      cases hmoved : exchange request.clientOrderId with
      | none =>
          rw [enroll_replace_of_none htype hmoved] at heq
          have hnew : id ≠ request.newClientOrderId := by
            rintro rfl
            rw [hwithin.eq_none hunused] at heq
            cases heq
          have hold : id ≠ request.clientOrderId := by
            rintro rfl
            rw [hmoved] at heq
            cases heq
          cases hmoved' : exchange' request.clientOrderId with
          | none =>
              rw [enroll_replace_of_none htype hmoved']
              exact hwithin id order heq
          | some order' =>
              rw [enroll_replace_of_some htype hmoved', Function.update_of_ne hnew,
                Function.update_of_ne hold]
              exact hwithin id order heq
      | some moved =>
          obtain ⟨moved', hmoved', hsame⟩ := hwithin _ moved hmoved
          rw [enroll_replace_of_some htype hmoved] at heq
          rw [enroll_replace_of_some htype hmoved']
          by_cases hnew : id = request.newClientOrderId
          · subst hnew
            rw [Function.update_self] at heq ⊢
            obtain rfl := Option.some.inj heq
            exact ⟨moved', rfl, hsame⟩
          · rw [Function.update_of_ne hnew] at heq ⊢
            by_cases hold : id = request.clientOrderId
            · subst hold
              rw [Function.update_self] at heq
              cases heq
            · rw [Function.update_of_ne hold] at heq ⊢
              exact hwithin id order heq

/-- **Less open stays less** when the requests are worked off. -/
theorem Within.settle (hwithin : exchange.Within exchange') (hfresh : exchange'.OpensFresh requests) :
    (exchange.settle requests).Within (exchange'.settle requests) := by
  induction requests generalizing exchange exchange' with
  | nil => exact hwithin
  | cons request requests ih =>
      have hunused : ∀ id ∈ created request, exchange' id = none := fun id hmem =>
        hfresh.unused id (by simp [hmem])
      exact ih (hwithin.enroll hunused) hfresh.enroll

theorem enroll_update (hnotMem : id ∉ created request)
    (hstays : request.type = .replace → request.clientOrderId ≠ id) (value : Option ExchangeOrder) :
    enroll (Function.update exchange id value) request =
      Function.update (exchange.enroll request) id value := by
  cases htype : request.type with
  | new =>
      rw [created_new htype, List.mem_singleton] at hnotMem
      rw [enroll_new htype, enroll_new htype, Function.update_comm hnotMem]
  | cancel => rw [enroll_cancel htype, enroll_cancel htype]
  | replace =>
      rw [created_replace htype, List.mem_singleton] at hnotMem
      have hold : request.clientOrderId ≠ id := hstays htype
      have hread : Function.update exchange id value request.clientOrderId =
          exchange request.clientOrderId := Function.update_of_ne hold _ _
      cases hmoved : exchange request.clientOrderId with
      | none => rw [enroll_replace_of_none htype hmoved, enroll_replace_of_none htype (hread.trans hmoved)]
      | some order =>
          rw [enroll_replace_of_some htype hmoved, enroll_replace_of_some htype (hread.trans hmoved),
            Function.update_comm (Ne.symm hold), Function.update_comm hnotMem]

theorem settle_update (hnotMem : id ∉ requests.flatMap created)
    (hstays : ∀ request ∈ requests, request.type = .replace → request.clientOrderId ≠ id)
    (value : Option ExchangeOrder) :
    settle (Function.update exchange id value) requests =
      Function.update (exchange.settle requests) id value := by
  induction requests generalizing exchange with
  | nil => rfl
  | cons request requests ih =>
      rw [List.flatMap_cons, List.mem_append, not_or] at hnotMem
      rw [settle_cons, settle_cons, enroll_update hnotMem.1 (hstays request (by simp))]
      exact ih hnotMem.2 fun other hmem => hstays other (by simp [hmem])

/-! ### Verdicts -/

theorem within_reduce {order : ExchangeOrder} (hopen : exchange id = some order) (qty : Nat) :
    (exchange.reduce id order qty).Within exchange := by
  intro id' order' heq
  unfold reduce at heq
  by_cases hid : id' = id
  · subst hid
    rw [Function.update_self] at heq
    split at heq
    · cases heq
    · obtain rfl := Option.some.inj heq
      exact ⟨order, hopen, rfl, rfl, Nat.sub_le _ _⟩
  · rw [Function.update_of_ne hid] at heq
    exact ⟨order', heq, rfl, rfl, le_refl _⟩

theorem within_enroll (hunused : ∀ id ∈ created request, exchange id = none)
    (hopen : request.type = .replace → exchange request.clientOrderId = none) :
    exchange.Within (exchange.enroll request) := by
  cases htype : request.type with
  | new =>
      rw [created_new htype, List.forall_mem_singleton] at hunused
      rw [enroll_new htype]
      intro id order heq
      have hid : id ≠ request.clientOrderId := by
        rintro rfl
        rw [hunused] at heq
        cases heq
      rw [Function.update_of_ne hid]
      exact ⟨order, heq, rfl, rfl, le_refl _⟩
  | cancel =>
      rw [enroll_cancel htype]
      exact Within.refl exchange
  | replace =>
      rw [enroll_replace_of_none htype (hopen htype)]
      exact Within.refl exchange

/-- What the exchange can decide. It never has more open than if it accepts, and it answers with no
execution. If cancels are for all that is open, a response that ends an order is about an id that is
not open any more. -/
theorem handle_spec {verdict : Verdict} {responses : List OrderResponse}
    (hunused : ∀ id ∈ created request, exchange id = none)
    (hfull : ∀ qty, verdict = .cancel qty → ∀ order ∈ exchange request.clientOrderId,
      order.openQty ≤ qty.toNat)
    (hhandle : exchange.handle request verdict = some (exchange', responses)) :
    exchange'.Within (exchange.enroll request)
      ∧ ∀ response ∈ responses, response.status ≠ .executed
        ∧ ((response.status = .canceled ∨ response.status = .rejected) →
          exchange' response.clientOrderId = none
            ∧ (response.clientOrderId ∈ created request
              ∨ exchange response.clientOrderId ≠ none)) := by
  unfold handle at hhandle
  split at hhandle
  case h_1 htype =>
      obtain ⟨rfl, rfl⟩ := Prod.mk.injEq .. ▸ Option.some.inj hhandle
      exact ⟨Within.refl _, by simp⟩
  case h_2 htype =>
      obtain ⟨rfl, rfl⟩ := Prod.mk.injEq .. ▸ Option.some.inj hhandle
      refine ⟨within_enroll hunused (by simp [htype]), ?_⟩
      rw [created_new htype, List.forall_mem_singleton] at hunused
      simp [hunused, created_new htype]
  case h_3 qty htype =>
      rw [enroll_cancel htype]
      split at hhandle
      case h_1 => cases hhandle
      case h_2 order hopen =>
          split at hhandle
          case isTrue => cases hhandle
          case isFalse =>
              obtain ⟨rfl, rfl⟩ := Prod.mk.injEq .. ▸ Option.some.inj hhandle
              refine ⟨within_reduce hopen _, ?_⟩
              simp [reduce, hopen, hfull qty rfl order hopen]
  case h_4 htype =>
      obtain ⟨rfl, rfl⟩ := Prod.mk.injEq .. ▸ Option.some.inj hhandle
      exact ⟨within_enroll hunused (by simp [htype]), by simp⟩
  case h_5 htype =>
      obtain ⟨rfl, rfl⟩ := Prod.mk.injEq .. ▸ Option.some.inj hhandle
      exact ⟨within_enroll hunused (by simp [htype]), by simp⟩
  case h_6 htype =>
      split at hhandle
      case isTrue => cases hhandle
      case isFalse =>
          obtain ⟨rfl, rfl⟩ := Prod.mk.injEq .. ▸ Option.some.inj hhandle
          exact ⟨Within.refl _, by simp⟩
  case h_7 htype =>
      split at hhandle
      case isTrue hnone =>
          obtain ⟨rfl, rfl⟩ := Prod.mk.injEq .. ▸ Option.some.inj hhandle
          refine ⟨within_enroll hunused (fun _ => hnone), ?_⟩
          rw [created_replace htype, List.forall_mem_singleton] at hunused
          simp [hunused, created_replace htype]
      case isFalse => cases hhandle
  case h_8 htype =>
      split at hhandle
      case isTrue hnone =>
          obtain ⟨rfl, rfl⟩ := Prod.mk.injEq .. ▸ Option.some.inj hhandle
          exact ⟨within_enroll hunused (fun _ => hnone), by simp⟩
      case isFalse => cases hhandle
  case h_9 => cases hhandle

end Exchange

end AlphaTrader
