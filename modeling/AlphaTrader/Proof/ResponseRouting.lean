import AlphaTrader.Proof.OrderIds
import AlphaTrader.Proof.ResponseParsing
import AlphaTrader.Trading.TradeEngine

/-!
# Ids and the way back of responses

An id carries the slot it was issued to in its high bits, so a response finds its slot without a
table. The slots share the allocator and the request queue, but a response touches neither: what a
list of responses does to a slot is what the slot's own responses do.
-/

namespace AlphaTrader

namespace OrderIdAllocator

theorem toNat_makeId {slot : Nat} (hslot : slot < 65536) (counter : OrderId) :
    (makeId slot counter).toNat = slot * 2 ^ 48 + counter.toNat % 2 ^ 48 := by
  have hmask : counterMask.toNat = 2 ^ 48 - 1 := rfl
  have hshift : (UInt64.ofNat slot <<< counterBits).toNat = slot <<< 48 := by
    rw [UInt64.toNat_shiftLeft, show counterBits.toNat % 64 = 48 from rfl, UInt64.toNat_ofNat',
      Nat.shiftLeft_eq, Nat.shiftLeft_eq]
    omega
  have hlow : counter.toNat % 2 ^ 48 < 2 ^ 48 := Nat.mod_lt _ (by decide)
  rw [makeId, UInt64.toNat_or, UInt64.toNat_and, hmask, Nat.and_two_pow_sub_one_eq_mod, hshift,
    ← Nat.shiftLeft_add_eq_or_of_lt hlow, Nat.shiftLeft_eq]

theorem shiftRight_makeId {slot : Nat} (hslot : slot < 65536) (counter : OrderId) :
    (makeId slot counter >>> counterBits).toNat = slot := by
  rw [UInt64.toNat_shiftRight, show counterBits.toNat % 64 = 48 from rfl, toNat_makeId hslot,
    Nat.shiftRight_eq_div_pow]
  omega

theorem ownerOf_makeId {allocator : OrderIdAllocator} {slot : Nat}
    (hcount : allocator.slotCount ≤ 65536) (hslot : slot < allocator.slotCount) (counter : OrderId) :
    allocator.ownerOf (makeId slot counter) = slot := by
  simp [ownerOf, shiftRight_makeId (hslot.trans_le hcount), hslot]

/-- The ids of a sequence of calls, each with its slot. -/
def issue (allocator : OrderIdAllocator) : List Nat → List (Nat × OrderId)
  | [] => []
  | slot :: slots => (slot, (allocator.next slot).1) :: issue (allocator.next slot).2 slots

theorem toNat_counter_next (allocator : OrderIdAllocator) (slot : Nat)
    (hfits : allocator.counter.toNat < 2 ^ 48) :
    (allocator.next slot).2.counter.toNat = allocator.counter.toNat + 1 := by
  change (allocator.counter + 1).toNat = _
  rw [UInt64.toNat_add, UInt64.toNat_one]
  omega

theorem mem_issue {allocator : OrderIdAllocator} {slots : List Nat} {slot : Nat} {id : OrderId}
    (hfits : allocator.counter.toNat + slots.length ≤ 2 ^ 48) (hmem : (slot, id) ∈ allocator.issue slots) :
    slot ∈ slots ∧ ∃ counter : OrderId, allocator.counter.toNat ≤ counter.toNat
      ∧ counter.toNat < 2 ^ 48 ∧ id = makeId slot counter := by
  induction slots generalizing allocator with
  | nil => cases hmem
  | cons head slots ih =>
      rw [List.length_cons] at hfits
      have hnext := toNat_counter_next allocator head (by omega)
      rcases List.mem_cons.mp hmem with heq | hmem
      · obtain ⟨rfl, rfl⟩ := Prod.mk.inj heq
        exact ⟨by simp, allocator.counter, le_rfl, by omega, rfl⟩
      · obtain ⟨hslot, counter, hle, hlt, rfl⟩ := ih (by omega) hmem
        exact ⟨by simp [hslot], counter, by omega, hlt, rfl⟩

theorem issue_pairwise {allocator : OrderIdAllocator} {slots : List Nat}
    (hfits : allocator.counter.toNat + slots.length ≤ 2 ^ 48) (hslots : ∀ slot ∈ slots, slot < 65536) :
    (allocator.issue slots).Pairwise fun a b => a.2 ≠ b.2 ∧ (a.1 = b.1 → a.2 < b.2) := by
  induction slots generalizing allocator with
  | nil => exact List.Pairwise.nil
  | cons head slots ih =>
      rw [List.length_cons] at hfits
      have hnext := toNat_counter_next allocator head (by omega)
      refine List.Pairwise.cons ?_ (ih (by omega) fun slot hmem => hslots slot (by simp [hmem]))
      rintro ⟨slot, id⟩ hmem
      obtain ⟨hslot, counter, hle, hlt, rfl⟩ := mem_issue (by omega) hmem
      have hhead := toNat_makeId (hslots head (by simp)) allocator.counter
      have hlater := toNat_makeId (hslots slot (by simp [hslot])) counter
      change makeId head allocator.counter ≠ makeId slot counter
        ∧ (head = slot → makeId head allocator.counter < makeId slot counter)
      rw [Nat.mod_eq_of_lt (by omega)] at hhead hlater
      constructor
      · intro heq
        rw [heq] at hhead
        omega
      · rintro rfl
        rw [UInt64.lt_iff_toNat_lt]
        omega

end OrderIdAllocator

/-! ### Routing -/

namespace TradeEngine

variable {S F π : Type} {cap : Capacity} {engine : TradeEngine S F π cap} {response : OrderResponse}

/-- A slot after its order manager has got the response. -/
def delivered (engine : TradeEngine S F π cap) (response : OrderResponse)
    (slot : EngineSlot S F cap) : EngineSlot S F cap :=
  { slot with om := ((engine.manager slot).onOrderResponse response).2 }

theorem processResponse_shared (engine : TradeEngine S F π cap) (response : OrderResponse) :
    (engine.processResponse response).allocator = engine.allocator
      ∧ (engine.processResponse response).orderRequests = engine.orderRequests := by
  unfold processResponse
  dsimp only
  split
  case h_1 => exact ⟨rfl, rfl⟩
  case h_2 slot _ => exact (engine.manager slot).onOrderResponse_shared response

/-- **A response** is handed to its owner and to no other slot. -/
theorem slots_processResponse (engine : TradeEngine S F π cap) (response : OrderResponse) (i : Nat) :
    (engine.processResponse response).slots[i]? =
      if engine.allocator.ownerOf response.clientOrderId = i then
        engine.slots[i]?.map (engine.delivered response)
      else engine.slots[i]? := by
  unfold processResponse
  dsimp only
  generalize engine.allocator.ownerOf response.clientOrderId = owner
  cases hslot : engine.slots[owner]? with
  | none =>
      by_cases heq : owner = i
      · subst heq
        simp [hslot]
      · simp [heq]
  | some slot =>
      change (engine.slots.set owner (engine.delivered response slot))[i]? = _
      rw [List.getElem?_set]
      by_cases heq : owner = i
      · subst heq
        obtain ⟨hlt, -⟩ := List.getElem?_eq_some_iff.mp hslot
        rw [if_pos rfl, if_pos hlt, if_pos rfl, hslot]
        rfl
      · simp [heq]

/-- The responses that a slot owns. -/
def owned (allocator : OrderIdAllocator) (i : Nat) (responses : List OrderResponse) :
    List OrderResponse :=
  responses.filter fun response => allocator.ownerOf response.clientOrderId = i

/-- What a list of responses does to a slot, its own responses do. -/
theorem slots_drainResponses (engine : TradeEngine S F π cap) (responses : List OrderResponse)
    (i : Nat) :
    (engine.drainResponses responses).slots[i]? =
      (owned engine.allocator i responses).foldl
        (fun slot? response => slot?.map (engine.delivered response)) engine.slots[i]? := by
  induction responses generalizing engine with
  | nil => rfl
  | cons response responses ih =>
      obtain ⟨hallocator, hrequests⟩ := engine.processResponse_shared response
      have hdelivered : (engine.processResponse response).delivered = engine.delivered := by
        funext response' slot
        simp only [delivered, manager, hallocator, hrequests]
      rw [show engine.drainResponses (response :: responses) =
        (engine.processResponse response).drainResponses responses from rfl, ih, hallocator,
        hdelivered, slots_processResponse]
      by_cases howner : engine.allocator.ownerOf response.clientOrderId = i
      · rw [if_pos howner, owned, owned, List.filter_cons_of_pos (by simpa using howner),
          List.foldl_cons]
      · rw [if_neg howner, owned, owned, List.filter_cons_of_neg (by simpa using howner)]

/-- **Slots do not interfere** through responses. -/
theorem drainResponses_noninterference (engine : TradeEngine S F π cap) :
    (∀ responses i, (engine.drainResponses responses).slots[i]? =
        (engine.drainResponses (owned engine.allocator i responses)).slots[i]?)
      ∧ ∀ responses responses',
        (∀ i < engine.slots.length,
          owned engine.allocator i responses = owned engine.allocator i responses') →
        (engine.drainResponses responses).slots = (engine.drainResponses responses').slots := by
  constructor
  · intro responses i
    rw [slots_drainResponses, slots_drainResponses]
    simp only [owned, List.filter_filter, Bool.and_self]
  · intro responses responses' hsame
    apply List.ext_getElem?
    intro i
    rw [slots_drainResponses, slots_drainResponses]
    by_cases hlt : i < engine.slots.length
    · rw [hsame i hlt]
    · rw [List.getElem?_eq_none (Nat.not_lt.mp hlt), List.foldl_fixed' fun _ => rfl,
        List.foldl_fixed' fun _ => rfl]

/-! ### Ids on their way -/

/-- The engine as its constructor sets it up: at most `maxSlots` slots, and the allocator for as many as
were asked for. -/
structure Built (engine : TradeEngine S F π cap) (slotCount maxSlots : Nat) : Prop where
  slots : engine.slots.length = min slotCount maxSlots
  allocator : engine.allocator.slotCount = slotCount

theorem built_init (strategy : S) (slotCount maxSlots requestCapacity : Nat) :
    (init strategy slotCount maxSlots requestCapacity : TradeEngine S F π cap).Built slotCount
      maxSlots where
  slots := by simp [init]
  allocator := rfl

theorem Built.drainResponses {slotCount maxSlots : Nat} (hbuilt : engine.Built slotCount maxSlots)
    (responses : List OrderResponse) : (engine.drainResponses responses).Built slotCount maxSlots := by
  induction responses generalizing engine with
  | nil => exact hbuilt
  | cons response responses ih =>
      refine ih ⟨?_, ?_⟩
      · rw [← hbuilt.slots]
        unfold processResponse
        dsimp only
        split
        case h_1 => rfl
        case h_2 => exact List.length_set
      · rw [(engine.processResponse_shared response).1, hbuilt.allocator]

theorem drainResponses_concat (engine : TradeEngine S F π cap) (responses : List OrderResponse)
    (response : OrderResponse) :
    engine.drainResponses (responses ++ [response]) =
      (engine.drainResponses responses).processResponse response := by
  simp [drainResponses]

/-- An id whose high bits name no slot of the engine is handed to none. -/
theorem slots_processResponse_of_foreign {slotCount maxSlots : Nat}
    (hbuilt : engine.Built slotCount maxSlots)
    (hforeign : min slotCount maxSlots ≤
      (response.clientOrderId >>> OrderIdAllocator.counterBits).toNat) :
    (engine.processResponse response).slots = engine.slots := by
  have howner : engine.slots.length ≤ engine.allocator.ownerOf response.clientOrderId := by
    have hslots := hbuilt.slots
    unfold OrderIdAllocator.ownerOf
    rw [hbuilt.allocator]
    dsimp only
    split <;> omega
  apply List.ext_getElem?
  intro i
  rw [slots_processResponse]
  split
  case isTrue heq =>
      rw [List.getElem?_eq_none (heq ▸ howner)]
      rfl
  case isFalse => rfl

/-- **Ids are unique and route home**, also through the token of the exchange. -/
theorem ids_route_home {slotCount : Nat} (hcount : slotCount ≤ 65536) {slots : List Nat}
    (hslots : ∀ slot ∈ slots, slot < slotCount) (hlength : slots.length < 2 ^ 48 - 1)
    {maxSlots : Nat} {engine : TradeEngine S F π cap} (hbuilt : engine.Built slotCount maxSlots)
    (before : List OrderResponse) (response : OrderResponse) :
    let issued := OrderIdAllocator.issue { slotCount := slotCount } slots
    let drained := engine.drainResponses before
    let after := engine.drainResponses (before ++ [response])
    (issued.Pairwise fun a b => a.2 ≠ b.2 ∧ (a.1 = b.1 → a.2 < b.2))
      ∧ (∀ slot id, (slot, id) ∈ issued → id ≠ 0
        ∧ OrderIdAllocator.ownerOf { slotCount := slotCount } id = slot
        ∧ OrderGateway.parseToken (OrderGateway.makeToken id) = id
        ∧ (response.clientOrderId = OrderGateway.parseToken (OrderGateway.makeToken id) →
          ∀ i, after.slots[i]? =
            if slot = i then drained.slots[i]?.map (drained.delivered response)
            else drained.slots[i]?))
      ∧ (min slotCount maxSlots ≤ (response.clientOrderId >>> OrderIdAllocator.counterBits).toNat →
        after.slots = drained.slots) := by
  intro issued drained after
  have hafter : after = drained.processResponse response :=
    engine.drainResponses_concat before response
  have hdrained : drained.Built slotCount maxSlots := hbuilt.drainResponses before
  have hfits : (1 : OrderId).toNat + slots.length ≤ 2 ^ 48 := by
    rw [UInt64.toNat_one]
    omega
  refine ⟨OrderIdAllocator.issue_pairwise hfits fun slot hmem => (hslots slot hmem).trans_le hcount,
    fun slot id hmem => ?_, fun hforeign => hafter ▸ slots_processResponse_of_foreign hdrained hforeign⟩
  obtain ⟨hslot, counter, hpos, hlt, rfl⟩ := OrderIdAllocator.mem_issue hfits hmem
  have howner : ∀ allocator : OrderIdAllocator, allocator.slotCount = slotCount →
      allocator.ownerOf (OrderIdAllocator.makeId slot counter) = slot := by
    rintro allocator rfl
    exact OrderIdAllocator.ownerOf_makeId hcount (hslots slot hslot) counter
  refine ⟨fun hzero => ?_, howner _ rfl, OrderGateway.parseToken_makeToken _, fun hid i => ?_⟩
  · have hmod := OrderIdAllocator.makeId_mod slot counter
    rw [hzero, Nat.mod_eq_of_lt hlt, UInt64.toNat_zero, Nat.zero_mod] at hmod
    rw [UInt64.toNat_one] at hpos
    omega
  · rw [hafter, slots_processResponse, hid, OrderGateway.parseToken_makeToken,
      howner _ hdrained.allocator]

/-- Three ids for two of four slots, in an engine with room for two slots only: the second id reaches
slot 0 and leaves slot 1 alone. -/
theorem ids_route_home_clamped :
    let engine : TradeEngine Unit Unit Unit ⟨1, 1, 1⟩ := init () 4 2 8
    (0, 2) ∈ OrderIdAllocator.issue { slotCount := 4 } [3, 0, 3]
      ∧ engine.slots.length = 2
      ∧ (engine.drainResponses [{ clientOrderId := 2 }]).slots[1]? = engine.slots[1]? :=
  have hmem : (0, 2) ∈ OrderIdAllocator.issue { slotCount := 4 } [3, 0, 3] := by decide
  ⟨hmem, rfl, ((ids_route_home (by decide) (by decide) (by decide) (built_init () 4 2 8) []
    { clientOrderId := 2 }).2.1 0 2 hmem).2.2.2 (OrderGateway.parseToken_makeToken 2).symm 1⟩

end TradeEngine

end AlphaTrader
