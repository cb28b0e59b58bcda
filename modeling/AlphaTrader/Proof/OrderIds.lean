import AlphaTrader.Proof.SlotSpec

/-!
# Order ids

The allocator puts its counter into the low 48 bits of an id. As long as the counter fits, every id it
hands out is new, so the recorded orders and the reservations have distinct ids.
-/

namespace AlphaTrader

namespace OrderIdAllocator

theorem makeId_mod (slot : Nat) (counter : OrderId) :
    (makeId slot counter).toNat % 2 ^ 48 = counter.toNat % 2 ^ 48 := by
  have hmask : counterMask.toNat = 2 ^ 48 - 1 := rfl
  have hshift : (UInt64.ofNat slot <<< counterBits).toNat % 2 ^ 48 = 0 := by
    rw [UInt64.toNat_shiftLeft, show counterBits.toNat % 64 = 48 from rfl, Nat.shiftLeft_eq]
    omega
  calc (makeId slot counter).toNat % 2 ^ 48
      = (UInt64.ofNat slot <<< counterBits).toNat % 2 ^ 48 ||| counter.toNat % 2 ^ 48 % 2 ^ 48 := by
        rw [makeId, UInt64.toNat_or, UInt64.toNat_and, hmask, Nat.and_two_pow_sub_one_eq_mod,
          Nat.or_mod_two_pow]
    _ = counter.toNat % 2 ^ 48 := by
        rw [hshift, Nat.zero_or, Nat.mod_mod]

end OrderIdAllocator

namespace Slot

variable {cap : Capacity} {s s' : Slot cap} {op : Op} {id : OrderId}

/-- The counter still fits into its bits. -/
def CounterFits (s : Slot cap) : Prop := s.allocator.counter.toNat < 2 ^ 48

instance : Decidable s.CounterFits := inferInstanceAs (Decidable (_ < _))

/-- An id that the slot has been given. -/
def Issued (s : Slot cap) (id : OrderId) : Prop :=
  ∃ counter : OrderId, 0 < counter.toNat ∧ counter.toNat < s.allocator.counter.toNat
    ∧ counter.toNat < 2 ^ 48 ∧ id = OrderIdAllocator.makeId s.slot counter

theorem nextId_not_issued (hfits : s.CounterFits) : ¬ s.Issued s.nextId := by
  rintro ⟨counter, -, hlt, hfits', heq⟩
  have hmod := congrArg (fun id : OrderId => id.toNat % 2 ^ 48) heq
  simp only [nextId, OrderIdAllocator.next, OrderIdAllocator.makeId_mod] at hmod
  unfold CounterFits at hfits
  rw [Nat.mod_eq_of_lt hfits, Nat.mod_eq_of_lt hfits'] at hmod
  omega

theorem Issued.ne_zero (hissued : s.Issued id) : id ≠ 0 := by
  obtain ⟨counter, hpos, -, hfits, rfl⟩ := hissued
  intro hzero
  have hmod := OrderIdAllocator.makeId_mod s.slot counter
  rw [hzero, Nat.mod_eq_of_lt hfits, UInt64.toNat_zero, Nat.zero_mod] at hmod
  omega

theorem Issued.mono (hissued : s.Issued id) (hslot : s'.slot = s.slot)
    (hcounter : s.allocator.counter.toNat ≤ s'.allocator.counter.toNat) : s'.Issued id := by
  obtain ⟨counter, hpos, hlt, hfits, rfl⟩ := hissued
  exact ⟨counter, hpos, by omega, hfits, by rw [hslot]⟩

theorem counter_succ (hfits : s.CounterFits) :
    (s.allocator.counter + 1).toNat = s.allocator.counter.toNat + 1 := by
  unfold CounterFits at hfits
  rw [UInt64.toNat_add, UInt64.toNat_one]
  omega

theorem issued_nextId (hfits : s.CounterFits) (hpos : 0 < s.allocator.counter.toNat)
    (hslot : s'.slot = s.slot) (hcounter : s'.allocator.counter = s.allocator.counter + 1) :
    s'.Issued s.nextId := by
  refine ⟨s.allocator.counter, hpos, ?_, hfits, by rw [hslot]; rfl⟩
  rw [hcounter, counter_succ hfits]
  omega

theorem Effect.slot_eq (heffect : Effect s op s') : s'.slot = s.slot := by
  cases heffect with
  | idle hsame => exact hsame.slot
  | _ => rfl

/-- **The counter** is kept or moves on by one. -/
theorem Effect.counter (heffect : Effect s op s') :
    s'.allocator.counter = s.allocator.counter
      ∨ s'.allocator.counter = s.allocator.counter + 1 := by
  cases heffect with
  | idle hsame => exact hsame.counter
  | submitted => exact Or.inr rfl
  | unreserved => exact Or.inr rfl
  | replaced => exact Or.inr rfl
  | _ => exact Or.inl rfl

/-- The counter fits, or the operation draws no id: so it is as long as fewer than `2 ^ 48` ids are
drawn. -/
def Numbered (s : Slot cap) (op : Op) : Prop :=
  s.CounterFits ∨ (s.step op).allocator.counter = s.allocator.counter

instance : Decidable (s.Numbered op) := inferInstanceAs (Decidable (_ ∨ _))

/-- A response draws no id. -/
theorem counter_onOrderResponse (s : Slot cap) (response : OrderResponse) :
    (s.step (.onOrderResponse response)).allocator.counter = s.allocator.counter := by
  rw [step, apply, (s.onOrderResponse_shared response).1]

/-- An id that is drawn was drawn while the counter fitted. -/
theorem counterFits_of_drawn (hfits : s.CounterFits ∨ s'.allocator.counter = s.allocator.counter)
    (hdrawn : s'.allocator.counter = s.allocator.counter + 1) : s.CounterFits :=
  hfits.resolve_right fun hkept => by simp [hkept] at hdrawn

theorem Effect.counter_le (heffect : Effect s op s')
    (hfits : s.CounterFits ∨ s'.allocator.counter = s.allocator.counter) :
    s.allocator.counter.toNat ≤ s'.allocator.counter.toNat := by
  rcases heffect.counter with heq | heq
  · rw [heq]
  · rw [heq, counter_succ (counterFits_of_drawn hfits heq)]
    omega

/-! ### Distinct ids -/

/-- The ids of the recorded orders and those of the reservations are issued and distinct. -/
structure Keyed (s : Slot cap) : Prop where
  counter_pos : 0 < s.allocator.counter.toNat
  issued : ∀ order ∈ s.orders, s.Issued order.id
  distinct : (s.orders.map OMOrder.id).Nodup
  settled : ∀ order ∈ s.orders, order.state.Live ∨ order.state.Finished
  pendingIssued : ∀ pending ∈ s.risk.pending, s.Issued pending.clientOrderId
  pendingDistinct : (s.risk.pending.map PendingOrder.clientOrderId).Nodup

/-- A slot before its first order, whatever its limits and positions are. -/
structure Unused (s : Slot cap) : Prop where
  orders : s.orders = []
  pending : s.risk.pending = []
  counter : s.allocator.counter = 1

theorem Unused.keyed (hunused : s.Unused) : s.Keyed where
  counter_pos := by simp [hunused.counter]
  issued := by simp [hunused.orders]
  distinct := by simp [hunused.orders]
  settled := by simp [hunused.orders]
  pendingIssued := by simp [hunused.pending]
  pendingDistinct := by simp [hunused.pending]

theorem Fresh.unused (hfresh : s.Fresh) : s.Unused :=
  ⟨hfresh.orders, hfresh.pending, hfresh.counter⟩

theorem Fresh.keyed (hfresh : s.Fresh) : s.Keyed := hfresh.unused.keyed

theorem pendingIds_onOrderResponse {response : OrderResponse} {risk : RiskManager cap}
    {pnl : PnLTracker cap} (hrisk : s.risk.onOrderResponse response s.pnl = some (risk, pnl)) :
    (risk.pending.map PendingOrder.clientOrderId).Subperm
      (s.risk.pending.map PendingOrder.clientOrderId) := by
  obtain ⟨before, pending, after, hsplit, -, -, hmatch⟩ := RiskManager.onOrderResponse_spec hrisk
  have hremainder : ∀ qty, ((RiskManager.remainder pending qty).map PendingOrder.clientOrderId).Sublist
      [pending.clientOrderId] := by
    intro qty
    unfold RiskManager.remainder
    split
    · exact List.nil_sublist _
    · exact List.Sublist.refl _
  have hreleased : ∀ qty, risk.pending.Perm (before ++ RiskManager.remainder pending qty ++ after) →
      (risk.pending.map PendingOrder.clientOrderId).Subperm
        (s.risk.pending.map PendingOrder.clientOrderId) := by
    intro qty hperm
    refine (hperm.map _).subperm.trans (List.Sublist.subperm ?_)
    rw [hsplit.split, ← List.singleton_append, ← List.append_assoc, List.map_append, List.map_append,
      List.map_append, List.map_append]
    exact ((List.Sublist.refl _).append (hremainder qty)).append (List.Sublist.refl _)
  cases hstatus : response.status with
  | accepted =>
      simp only [hstatus] at hmatch
      rw [hmatch.1]
  | cancelRejected =>
      simp only [hstatus] at hmatch
      rw [hmatch.1]
  | executed =>
      simp only [hstatus] at hmatch
      exact hreleased _ hmatch.2.2.2
  | canceled =>
      simp only [hstatus] at hmatch
      exact hreleased _ hmatch.2.2.2
  | rejected =>
      simp only [hstatus] at hmatch
      refine (hmatch.2.map _).subperm.trans (List.Sublist.subperm ?_)
      rw [hsplit.split]
      exact ((List.Sublist.refl before).append (List.sublist_cons_self pending after)).map _

/-- Ids that become fewer stay issued and distinct, and so do they with new ids added. -/
theorem issued_nodup_of_subperm {fresh ids ids' : List OrderId}
    (hold : ∀ id ∈ ids, s.Issued id ∧ s'.Issued id) (hnodup : ids.Nodup)
    (hfresh : ∀ id ∈ fresh, ¬ s.Issued id ∧ s'.Issued id) (hfreshNodup : fresh.Nodup)
    (hsubperm : ids'.Subperm (fresh ++ ids)) : (∀ id ∈ ids', s'.Issued id) ∧ ids'.Nodup := by
  constructor
  · intro id hmem
    rcases List.mem_append.mp (hsubperm.subset hmem) with hnew | hmem
    · exact (hfresh id hnew).2
    · exact (hold id hmem).2
  · have hall : (fresh ++ ids).Nodup := by
      refine List.Nodup.append hfreshNodup hnodup ?_
      intro id hnew hmem
      exact (hfresh id hnew).1 (hold id hmem).1
    obtain ⟨l, hperm, hsublist⟩ := hsubperm
    exact hperm.nodup_iff.mp (hsublist.nodup hall)

theorem Keyed.of_subperm (hkeyed : s.Keyed) (hslot : s'.slot = s.slot)
    (hcounter : s.allocator.counter.toNat ≤ s'.allocator.counter.toNat) {fresh : List OrderId}
    (hfresh : ∀ id ∈ fresh, ¬ s.Issued id ∧ s'.Issued id) (hnodup : fresh.Nodup)
    (horders : (s'.orders.map OMOrder.id).Subperm (fresh ++ s.orders.map OMOrder.id))
    (hsettled : ∀ order ∈ s'.orders, order.state.Live ∨ order.state.Finished)
    (hpending : (s'.risk.pending.map PendingOrder.clientOrderId).Subperm
      (fresh ++ s.risk.pending.map PendingOrder.clientOrderId)) : s'.Keyed := by
  have hmono : ∀ id, s.Issued id → s.Issued id ∧ s'.Issued id := fun id hissued =>
    ⟨hissued, hissued.mono hslot hcounter⟩
  have hids := issued_nodup_of_subperm
    (List.forall_mem_map.mpr fun order hmem => hmono _ (hkeyed.issued order hmem)) hkeyed.distinct
    hfresh hnodup horders
  have hpendingIds := issued_nodup_of_subperm
    (List.forall_mem_map.mpr fun pending hmem => hmono _ (hkeyed.pendingIssued pending hmem))
    hkeyed.pendingDistinct hfresh hnodup hpending
  exact
    { counter_pos := lt_of_lt_of_le hkeyed.counter_pos hcounter
      issued := List.forall_mem_map.mp hids.1
      distinct := hids.2
      settled := hsettled
      pendingIssued := List.forall_mem_map.mp hpendingIds.1
      pendingDistinct := hpendingIds.2 }

/-- A write to one order that keeps its id, together with a release of reservations. -/
theorem Keyed.of_write (hkeyed : s.Keyed) {before after : List OMOrder} {order order' : OMOrder}
    (hat : s.OrderAt id before order after)
    (hs' : s'.orders = before ++ order' :: after ∧ s'.slot = s.slot ∧ s'.allocator = s.allocator)
    (hid : order'.id = order.id) (hsettled : order'.state.Live ∨ order'.state.Finished)
    (hpending : (s'.risk.pending.map PendingOrder.clientOrderId).Subperm
      (s.risk.pending.map PendingOrder.clientOrderId)) : s'.Keyed := by
  obtain ⟨horders, hslot, hallocator⟩ := hs'
  have hids : s'.orders.map OMOrder.id = s.orders.map OMOrder.id := by
    rw [horders, hat.split, List.map_append, List.map_append, List.map_cons, List.map_cons, hid]
  have hall := Table.forall_mem_split hat.split_middle hkeyed.settled hsettled
  refine hkeyed.of_subperm hslot (by rw [hallocator]) (List.forall_mem_nil _) List.nodup_nil ?_ ?_ ?_
  · rw [hids]
    exact List.Subperm.refl _
  · rw [horders]
    exact hall
  · exact hpending

theorem cons_subperm_of_split {α : Type*} (x : α) (before middle after : List α) :
    (before ++ x :: after).Subperm ([x] ++ (before ++ middle ++ after)) := by
  refine List.perm_middle.subperm.trans (List.Sublist.subperm ?_)
  refine List.Sublist.cons_cons x ?_
  rw [List.append_assoc]
  exact (List.Sublist.refl before).append (List.sublist_append_right middle after)

/-- **A step** keeps the ids distinct while the counter fits, or if no id is drawn. -/
theorem keyed_step (hkeyed : s.Keyed)
    (hfits : s.CounterFits ∨ s'.allocator.counter = s.allocator.counter)
    (heffect : Effect s op s') : s'.Keyed := by
  have hslot := heffect.slot_eq
  have hcounter := heffect.counter_le hfits
  have hdrawn : s'.allocator.counter = s.allocator.counter + 1 →
      ∀ id ∈ [s.nextId], ¬ s.Issued id ∧ s'.Issued id := by
    intro hsucc id hmem
    obtain rfl := List.mem_singleton.mp hmem
    have hfits := counterFits_of_drawn hfits hsucc
    exact ⟨nextId_not_issued hfits, issued_nextId hfits hkeyed.counter_pos hslot hsucc⟩
  cases heffect with
  | idle hsame =>
      refine hkeyed.of_subperm hslot hcounter (List.forall_mem_nil _) List.nodup_nil ?_ ?_ ?_
      · rw [hsame.orders]
        exact List.Subperm.refl _
      · rw [hsame.orders]
        exact hkeyed.settled
      · rw [hsame.pending]
        exact List.Subperm.refl _
  | submitted hpassed hsplit hevicted =>
      refine hkeyed.of_subperm hslot hcounter (hdrawn rfl) (List.nodup_singleton _) ?_ ?_ ?_
      · rw [hsplit, List.map_append, List.map_append, List.map_append, List.map_cons]
        exact cons_subperm_of_split _ _ _ _
      · exact Table.forall_mem_split hsplit hkeyed.settled (Or.inl OMOrderState.live_notActive)
      · rw [List.map_append]
        exact List.perm_append_comm.subperm
  | cancelSent hat hopen =>
      have hsettled := hkeyed.settled _ hat.mem
      exact hkeyed.of_write hat ⟨rfl, rfl, rfl⟩ rfl hsettled (List.Subperm.refl _)
  | unreserved hat hopen hpending =>
      exact hkeyed.of_subperm hslot hcounter (List.forall_mem_nil _) List.nodup_nil
        (List.Subperm.refl _) hkeyed.settled (List.Subperm.refl _)
  | replaced hat hopen hpending =>
      have hsettled := hkeyed.settled _ hat.mem
      refine hkeyed.of_subperm hslot hcounter (hdrawn rfl) (List.nodup_singleton _) ?_ ?_ ?_
      · rw [hat.split_middle, List.map_append, List.map_append, List.map_append, List.map_cons]
        exact cons_subperm_of_split _ _ _ _
      · exact Table.forall_mem_split hat.split_middle hkeyed.settled hsettled
      · rw [hpending.split_middle, List.map_append, List.map_append, List.map_append, List.map_cons]
        exact cons_subperm_of_split _ _ _ _
  | noted hat hstatus hrequest hfilled hlive hfinished =>
      have hsettled := hkeyed.settled _ hat.mem
      rw [← hlive, ← hfinished] at hsettled
      exact hkeyed.of_write hat ⟨rfl, rfl, rfl⟩ (congrArg OrderRequest.clientOrderId hrequest) hsettled
        (List.Subperm.refl _)
  | filled hat hstatus hopen hqty hrisk =>
      refine hkeyed.of_write hat ⟨rfl, rfl, rfl⟩ rfl ?_ (pendingIds_onOrderResponse hrisk)
      dsimp only
      split
      · exact Or.inr OMOrderState.finished_completed
      · exact Or.inl OMOrderState.live_partiallyFilled
  | failed hat hstatus hpositive hopen hqty hrisk =>
      exact hkeyed.of_write hat ⟨rfl, rfl, rfl⟩ rfl (Or.inr OMOrderState.finished_dead) (List.Subperm.refl _)
  | canceled hat hstatus hopen hrisk =>
      refine hkeyed.of_write hat ⟨rfl, rfl, rfl⟩ rfl (Or.inr ?_) ?_
      · dsimp only
        split
        · exact OMOrderState.finished_completed
        · exact OMOrderState.finished_cancelled
      · split at hrisk
        · rw [hrisk.1]
        · exact pendingIds_onOrderResponse hrisk
  | rejected hat hstatus hrisk =>
      exact hkeyed.of_write hat ⟨rfl, rfl, rfl⟩ rfl (Or.inr OMOrderState.finished_dead) (pendingIds_onOrderResponse hrisk)

theorem Keyed.eq_of_id_eq (hkeyed : s.Keyed) {order order' : OMOrder}
    (hmem : order ∈ s.orders) (hmem' : order' ∈ s.orders)
    (hid : order.id = order'.id) : order = order' :=
  List.inj_on_of_nodup_map hkeyed.distinct hmem hmem' hid

theorem Keyed.eq_of_clientOrderId_eq (hkeyed : s.Keyed) {pending pending' : PendingOrder}
    (hmem : pending ∈ s.risk.pending) (hmem' : pending' ∈ s.risk.pending)
    (hid : pending.clientOrderId = pending'.clientOrderId) : pending = pending' :=
  List.inj_on_of_nodup_map hkeyed.pendingDistinct hmem hmem' hid

theorem Keyed.exists_orderAt (hkeyed : s.Keyed) {order : OMOrder} (hmem : order ∈ s.orders) :
    ∃ before after, s.OrderAt order.id before order after := by
  obtain ⟨index, hfind⟩ := Table.find_of_mem hkeyed.distinct hmem
  obtain ⟨before, after, hat, -⟩ := orderAt_of_find hfind
  exact ⟨before, after, hat⟩

theorem Keyed.exists_splitAt (hkeyed : s.Keyed) {pending : PendingOrder}
    (hmem : pending ∈ s.risk.pending) :
    ∃ before after, s.risk.SplitAt pending.clientOrderId before pending after := by
  obtain ⟨index, hfind⟩ := Table.find_of_mem hkeyed.pendingDistinct hmem
  obtain ⟨before, after, hsplit, -, hfound, hskipped⟩ := Table.exists_split_of_find hfind
  exact ⟨before, after, hsplit, hfound, hskipped⟩

theorem Keyed.nextId_free (hkeyed : s.Keyed) (hfits : s.CounterFits) :
    s.nextId ≠ 0 ∧ ∀ pending ∈ s.risk.pending, pending.clientOrderId ≠ s.nextId := by
  constructor
  · let drawn : Slot cap := { s with allocator := (s.allocator.next s.slot).2 }
    have hissued : drawn.Issued s.nextId := issued_nextId hfits hkeyed.counter_pos rfl rfl
    exact hissued.ne_zero
  · intro pending hmem hid
    exact nextId_not_issued hfits (hid ▸ hkeyed.pendingIssued pending hmem)

end Slot

end AlphaTrader
