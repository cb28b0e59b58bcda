import AlphaTrader.ItchDecoder

/-!
# What a frame does to the order table

Apart from replaces, a message reads and writes the live entry of one order of one ticker, and the
decision whether it is accepted depends on that entry alone. `touch` states the effect on the entry;
the code's vectors with their sizes and dead entries refine it.
-/

namespace AlphaTrader

/-- The live entry that holds a state: none for a dead state. -/
def OrderState.entry? (state : OrderState) : Option OrderState :=
  if state.qty = 0 then none else some state

namespace OrderVector

variable {slot slot' : OrderVector} {ref : OrderId} {state : OrderState}

theorem set?_of_lt (hlt : ref < slot.size) (state : OrderState) :
    ∃ slot', slot.set? ref state = some slot' := by
  simp [set?, hlt]

theorem get?_set? (hset : slot.set? ref state = some slot') (other : OrderId) :
    slot'.get? other = if other = ref then some state else slot.get? other := by
  unfold set? at hset
  split at hset
  case isFalse => cases hset
  case isTrue hlt =>
      obtain rfl := Option.some.inj hset
      by_cases heq : other = ref
      · subst heq
        simp [get?, hlt]
      · have hne : compare ref other ≠ .eq := by simpa using Ne.symm heq
        simp [get?, heq, Std.TreeMap.getD_insert, hne]

theorem live?_set? (hset : slot.set? ref state = some slot') (other : OrderId) :
    slot'.live? other =
      if other = ref then state.entry? else slot.live? other := by
  rw [live?, get?_set? hset]
  by_cases heq : other = ref
  · by_cases hqty : state.qty = 0 <;> simp [OrderState.entry?, heq, hqty, Option.filter]
  · simp [heq, live?]

theorem live?_resize (hle : slot.size ≤ ref) (other : OrderId) :
    (slot.resize ref).live? other = slot.live? other := by
  have hstates : (slot.resize ref).states = slot.states ∧ (slot.resize ref).size = ref := by
    simp [resize, hle]
  simp only [live?, get?, hstates.1, hstates.2]
  by_cases hlt : other < slot.size
  · rw [if_pos hlt, if_pos (UInt64.lt_of_lt_of_le hlt hle)]
  · have hdefault : slot.states.getD other {} = {} :=
      Std.TreeMap.getD_eq_fallback fun hmem => hlt (slot.bound other hmem)
    rw [if_neg hlt, hdefault]
    split <;> simp [Option.filter]

theorem reserve_spec (slot : OrderVector) (hvalid : ref ≠ orderIdInvalid) :
    ref < (slot.reserve ref).size ∧ ∀ other, (slot.reserve ref).live? other = slot.live? other := by
  unfold reserve
  split
  case isTrue hle =>
      have hsucc : ref < ref + 1 := by
        have hlt : ref.toNat < 2 ^ 64 := ref.toNat_lt
        have hne : ref.toNat ≠ 2 ^ 64 - 1 := fun heq => hvalid (UInt64.toNat_inj.mp heq)
        rw [UInt64.lt_iff_toNat_lt, UInt64.toNat_add]
        simp only [UInt64.reduceToNat]
        omega
      have hgrow : slot.size ≤ ref + 1 := UInt64.le_trans hle (UInt64.le_of_lt hsucc)
      refine ⟨?_, live?_resize hgrow⟩
      rw [resize, dif_pos hgrow]
      exact hsucc
  case isFalse hlt => exact ⟨UInt64.not_le.mp hlt, fun _ => rfl⟩

theorem get?_of_lt (hlt : ref < slot.size) : ∃ state, slot.get? ref = some state :=
  ⟨_, if_pos hlt⟩

theorem lt_of_get? (hget : slot.get? ref = some state) : ref < slot.size := by
  unfold get? at hget
  split at hget
  case isTrue hlt => exact hlt
  case isFalse => cases hget

theorem size_set? (hset : slot.set? ref state = some slot') : slot'.size = slot.size := by
  unfold set? at hset
  split at hset
  case isTrue =>
      obtain rfl := Option.some.inj hset
      rfl
  case isFalse => cases hset

theorem size_le_reserve (hvalid : ref ≠ orderIdInvalid) : slot.size ≤ (slot.reserve ref).size := by
  by_cases hle : slot.size ≤ ref
  · exact UInt64.le_trans hle (UInt64.le_of_lt (slot.reserve_spec hvalid).1)
  · rw [reserve, if_neg hle]
    exact UInt64.le_refl _

end OrderVector

namespace ItchDecoder

variable {decoder decoder' : ItchDecoder} {ticker : TickerId} {ref : OrderId} {state : OrderState}

theorem live?_insert (decoder : ItchDecoder) (ticker : TickerId) (slot : OrderVector)
    (ticker' : TickerId) (ref : OrderId) :
    ItchDecoder.live? { decoder with orderRefMap := decoder.orderRefMap.insert ticker slot } ticker' ref =
      if ticker' = ticker then slot.live? ref else decoder.live? ticker' ref := by
  simp only [live?, Std.TreeMap.getElem?_insert]
  by_cases heq : ticker' = ticker
  · simp [heq]
  · have hne : compare ticker ticker' ≠ .eq := by simpa using Ne.symm heq
    simp [heq, hne]

/-- A message finds the live entry of its order, or is turned down. -/
theorem state?_cases (decoder : ItchDecoder) (ticker : TickerId) (ref : OrderId) :
    (decoder.live? ticker ref = none ∧
        ∀ state, decoder.state? ticker ref = some state → state.qty = 0)
      ∨ ∃ state, decoder.live? ticker ref = some state ∧ decoder.state? ticker ref = some state
        ∧ state.qty ≠ 0 := by
  cases hslot : decoder.orderRefMap[ticker]? with
  | none => simp [live?, state?, hslot]
  | some slot =>
      cases hget : slot.get? ref with
      | none => simp [live?, state?, hslot, OrderVector.live?, hget]
      | some state =>
          by_cases hqty : state.qty = 0 <;>
            simp [live?, state?, hslot, OrderVector.live?, hget, hqty, Option.filter]

theorem setState?_spec {old : OrderState} (hstate : decoder.state? ticker ref = some old)
    (state : OrderState) :
    ∃ decoder', decoder.setState? ticker ref state = some decoder'
      ∧ (∀ ticker' ref', decoder'.live? ticker' ref' =
          if ticker' = ticker ∧ ref' = ref then state.entry? else decoder.live? ticker' ref')
      ∧ decoder'.lastDecodedSize = decoder.lastDecodedSize
      ∧ decoder'.needMoreData = decoder.needMoreData
      ∧ decoder'.trackedOrderCount = decoder.trackedOrderCount := by
  obtain ⟨slot, hslot, hget⟩ := Option.bind_eq_some_iff.mp hstate
  have hlt : ref < slot.size := by
    by_contra hge
    simp [OrderVector.get?, hge] at hget
  obtain ⟨slot', hset⟩ := OrderVector.set?_of_lt hlt state
  have hwrite : decoder.setState? ticker ref state =
      some { decoder with orderRefMap := decoder.orderRefMap.insert ticker slot' } := by
    simp only [setState?, hslot, hset, Option.bind_eq_bind, Option.bind_some, Option.pure_def]
  refine ⟨_, hwrite, fun ticker' ref' => ?_, rfl, rfl, rfl⟩
  rw [live?_insert]
  by_cases heq : ticker' = ticker
  · subst heq
    rw [if_pos rfl, OrderVector.live?_set? hset]
    simp [live?, hslot]
  · simp [heq]

/-! ### The effect of a message -/

/-- The quantity `qty` taken off an order. -/
def reduced (state : OrderState) (qty : Quantity) : Option OrderState :=
  if state.qty ≤ qty then none else some { state with qty := state.qty - qty }

def addUpdate (type : UpdateType) (msg : Payload) (out : MarketUpdate) : MarketUpdate :=
  { out with
    type := type, side := msg.side, price := msg.price, qty := msg.shares, orderRef := msg.ref,
    newRef := 0, tickerId := msg.stockLocate }

def entryUpdate (type : UpdateType) (qty : Quantity) (newRef : OrderId) (msg : Payload)
    (state : OrderState) (out : MarketUpdate) : MarketUpdate :=
  { out with
    type := type, qty := qty, orderRef := msg.ref, newRef := newRef, side := state.side,
    price := state.price, tickerId := state.tickerId }

/-- The type of a snapshot marker, by its locate. -/
def marker? (locate : UInt16) : Option UpdateType :=
  if locate = SnapshotControl.snapshotStart then some .snapshotStart
  else if locate = SnapshotControl.snapshotClear then some .snapshotClear
  else if locate = SnapshotControl.snapshotEnd then some .snapshotEnd
  else none

def markerUpdate (type : UpdateType) (msg : Payload) (out : MarketUpdate) : MarketUpdate :=
  { out with
    type := type, orderRef := msg.ref, newRef := 0
    tickerId := if type = .snapshotClear then UInt32.ofNat msg.ref.toNat else tickerIdInvalid }

/-- What a message that is no replace makes of the live entry of its order: the update and the new
entry, or `none` when it is turned down. -/
def touch (type : MsgType) (msg : Payload) (out : MarketUpdate) (entry : Option OrderState) :
    Option (MarketUpdate × Option OrderState) :=
  let added := OrderState.entry? ⟨msg.side, msg.price, msg.shares, msg.stockLocate⟩
  match type with
  | .systemEvent | .orderReplace => none
  | .addOrder => some (addUpdate .add msg out, added)
  | .addOrderMpid => some (addUpdate .addMpid msg out, added)
  | .orderExecuted => entry.map fun state =>
      (entryUpdate .execute msg.execShares msg.matchNumber msg state out, reduced state msg.execShares)
  | .orderCancel => entry.map fun state =>
      (entryUpdate .cancel msg.canceled 0 msg state out, reduced state msg.canceled)
  | .orderDelete =>
      match marker? msg.locate with
      | some type => some (markerUpdate type msg out, entry)
      | none => entry.map fun state => (entryUpdate .delete 0 0 msg state out, none)

/-- The count of tracked orders after a message: one more with an add, whatever it writes, and one less
when a live order dies. -/
def counted (count : UInt64) (old : Option OrderState) :
    Option (MarketUpdate × Option OrderState) → UInt64
  | none => count
  | some (update, entry) =>
      if update.type = .add ∨ update.type = .addMpid then count + 1
      else if old.isSome ∧ entry.isNone then count - 1
      else count

/-- The result of a message is the effect `effect` on the live entry of its order. -/
structure Touches (decoder : ItchDecoder) (msg : Payload) (result : Decoded)
    (effect : Option (MarketUpdate × Option OrderState)) : Prop where
  accepted : result.accepted = effect.isSome
  update : ∀ update entry, effect = some (update, entry) → result.update = update
  live : ∀ ticker ref, result.decoder.live? ticker ref =
    if ticker = msg.stockLocate ∧ ref = msg.ref then
      (effect.map Prod.snd).getD (decoder.live? msg.stockLocate msg.ref)
    else decoder.live? ticker ref
  size : result.decoder.lastDecodedSize = decoder.lastDecodedSize
  more : result.decoder.needMoreData = decoder.needMoreData
  count : result.decoder.trackedOrderCount =
    counted decoder.trackedOrderCount (decoder.live? msg.stockLocate msg.ref) effect

section Messages

variable {msg : Payload} {out : MarketUpdate}

theorem touches_unchanged {accepted : Bool} {update : MarketUpdate}
    {effect : Option (MarketUpdate × Option OrderState)} (haccepted : accepted = effect.isSome)
    (heffect : ∀ update' entry, effect = some (update', entry) →
      update = update' ∧ entry = decoder.live? msg.stockLocate msg.ref
        ∧ ¬ (update'.type = .add ∨ update'.type = .addMpid)) :
    Touches decoder msg ⟨accepted, update, decoder⟩ effect := by
  refine ⟨haccepted, fun update' entry h => (heffect update' entry h).1, fun ticker ref => ?_, rfl,
    rfl, ?_⟩
  · by_cases heq : ticker = msg.stockLocate ∧ ref = msg.ref
    · rw [if_pos heq, heq.1, heq.2]
      cases effect with
      | none => rfl
      | some pair => exact (heffect pair.1 pair.2 rfl).2.1.symm
    · rw [if_neg heq]
  · cases effect with
    | none => rfl
    | some pair =>
        obtain ⟨-, hentry, htype⟩ := heffect pair.1 pair.2 rfl
        rw [counted, if_neg htype, hentry, if_neg]
        cases decoder.live? msg.stockLocate msg.ref <;> simp

@[simp]
theorem live?_default (ref : OrderId) : (default : OrderVector).live? ref = none := by
  have hempty : ¬ ref < (default : OrderVector).size := UInt64.not_lt_zero
  rw [OrderVector.live?, OrderVector.get?, if_neg hempty]
  rfl

theorem live?_getD (decoder : ItchDecoder) (ticker : TickerId) (ref : OrderId) :
    (decoder.orderRefMap[ticker]?.getD default).live? ref = decoder.live? ticker ref := by
  cases hslot : decoder.orderRefMap[ticker]? <;> simp [live?, hslot]

theorem touches_write {written : ItchDecoder} {update : MarketUpdate} {entry : Option OrderState}
    (hlive : ∀ ticker ref, written.live? ticker ref =
      if ticker = msg.stockLocate ∧ ref = msg.ref then entry else decoder.live? ticker ref)
    (hsize : written.lastDecodedSize = decoder.lastDecodedSize)
    (hmore : written.needMoreData = decoder.needMoreData)
    (hcount : written.trackedOrderCount = counted decoder.trackedOrderCount
      (decoder.live? msg.stockLocate msg.ref) (some (update, entry))) :
    Touches decoder msg ⟨true, update, written⟩ (some (update, entry)) where
  accepted := rfl
  update := fun _ _ h => congrArg Prod.fst (Option.some.inj h)
  live := hlive
  size := hsize
  more := hmore
  count := hcount

theorem decodeAdd_touches (type : UpdateType) (htype : type = .add ∨ type = .addMpid)
    (hvalid : msg.ref ≠ orderIdInvalid) :
    ∃ result, decodeAdd type decoder msg out = some result ∧ Touches decoder msg result
      (some (addUpdate type msg out, OrderState.entry? ⟨msg.side, msg.price, msg.shares, msg.stockLocate⟩)) := by
  obtain ⟨hlt, hlive⟩ :=
    (decoder.orderRefMap[msg.stockLocate]?.getD default).reserve_spec hvalid
  obtain ⟨slot, hset⟩ := OrderVector.set?_of_lt hlt
    ⟨msg.side, msg.price, msg.shares, msg.stockLocate⟩
  have hdecode : decodeAdd type decoder msg out = some ⟨true, addUpdate type msg out, { decoder with
      orderRefMap := decoder.orderRefMap.insert msg.stockLocate slot
      trackedOrderCount := decoder.trackedOrderCount + 1 }⟩ := by
    simp only [decodeAdd, hset, Option.bind_eq_bind, Option.bind_some, Option.pure_def]
    rfl
  refine ⟨_, hdecode, touches_write (fun ticker ref => ?_) rfl rfl ?_⟩
  · refine (live?_insert decoder msg.stockLocate slot ticker ref).trans ?_
    by_cases heq : ticker = msg.stockLocate
    · subst heq
      rw [if_pos rfl, OrderVector.live?_set? hset, hlive, live?_getD]
      simp
    · simp [heq]
  · have hadd : (addUpdate type msg out).type = .add ∨ (addUpdate type msg out).type = .addMpid := htype
    rw [counted, if_pos hadd]

theorem entry?_sub {state : OrderState} {qty : Quantity} (hlt : ¬ state.qty ≤ qty) :
    OrderState.entry? { state with qty := state.qty - qty } =
      some { state with qty := state.qty - qty } := by
  have hlt : qty < state.qty := UInt32.not_le.mp hlt
  rw [OrderState.entry?, if_neg]
  intro hzero
  have hsub := UInt32.toNat_sub_of_le state.qty qty (UInt32.le_of_lt hlt)
  have hpos : (state.qty - qty).toNat = 0 := congrArg UInt32.toNat hzero
  have hnat : qty.toNat < state.qty.toNat := UInt32.lt_iff_toNat_lt.mp hlt
  omega

theorem decodeReduction_touches (type : UpdateType) (htype : ¬ (type = .add ∨ type = .addMpid))
    (qty : Quantity) (newRef : OrderId) :
    ∃ result, decodeReduction type qty newRef decoder msg out = some result
      ∧ Touches decoder msg result ((decoder.live? msg.stockLocate msg.ref).map fun state =>
          (entryUpdate type qty newRef msg state out, reduced state qty)) := by
  rcases decoder.state?_cases msg.stockLocate msg.ref with ⟨hnone, hdead⟩ | ⟨state, hlive, hstate, hqty⟩
  · have hreject : decodeReduction type qty newRef decoder msg out = some ⟨false,
        { out with type := type, qty := qty, orderRef := msg.ref, newRef := newRef }, decoder⟩ := by
      unfold decodeReduction
      cases hstate : decoder.state? msg.stockLocate msg.ref with
      | none => rfl
      | some state => simp [hdead state hstate]
    exact ⟨_, hreject, touches_unchanged (by simp [hnone]) (by simp [hnone])⟩
  · rw [hlive, Option.map_some, reduced]
    by_cases hle : state.qty ≤ qty
    · obtain ⟨written, hwrite, hlive', hsize, hmore, hcount⟩ :=
        setState?_spec hstate { state with qty := 0 }
      have hdecode : decodeReduction type qty newRef decoder msg out =
          some ⟨true, entryUpdate type qty newRef msg state out,
            { written with trackedOrderCount := written.trackedOrderCount - 1 }⟩ := by
        simp [decodeReduction, hstate, hqty, hle, hwrite, entryUpdate]
      rw [if_pos hle]
      refine ⟨_, hdecode, touches_write hlive' hsize hmore ?_⟩
      rw [counted, if_neg (by simpa [entryUpdate] using htype), if_pos (by simp [hlive]), hcount]
    · obtain ⟨written, hwrite, hlive', hsize, hmore, hcount⟩ :=
        setState?_spec hstate { state with qty := state.qty - qty }
      have hdecode : decodeReduction type qty newRef decoder msg out =
          some ⟨true, entryUpdate type qty newRef msg state out, written⟩ := by
        simp [decodeReduction, hstate, hqty, hle, hwrite, entryUpdate]
      rw [entry?_sub hle] at hlive'
      rw [if_neg hle]
      refine ⟨_, hdecode, touches_write hlive' hsize hmore ?_⟩
      rw [counted, if_neg (by simpa [entryUpdate] using htype), if_neg (by simp), hcount]

theorem decodeOrderDelete_marker {type : UpdateType} (hmarker : marker? msg.locate = some type) :
    decoder.decodeOrderDelete msg out = some ⟨true, markerUpdate type msg out, decoder⟩ := by
  unfold marker? at hmarker
  unfold decodeOrderDelete
  split at hmarker
  case isTrue hstart =>
      obtain rfl := Option.some.inj hmarker
      rw [if_pos hstart]
      rfl
  case isFalse hstart =>
      rw [if_neg hstart]
      split at hmarker
      case isTrue hclear =>
          obtain rfl := Option.some.inj hmarker
          rw [if_pos hclear]
          rfl
      case isFalse hclear =>
          rw [if_neg hclear]
          split at hmarker
          case isTrue hend =>
              obtain rfl := Option.some.inj hmarker
              rw [if_pos hend]
              rfl
          case isFalse => cases hmarker

theorem marker?_eq_none {locate : UInt16} (hmarker : marker? locate = none) :
    locate ≠ SnapshotControl.snapshotStart ∧ locate ≠ SnapshotControl.snapshotClear
      ∧ locate ≠ SnapshotControl.snapshotEnd := by
  refine ⟨?_, ?_, ?_⟩ <;> rintro rfl <;> cases hmarker

theorem marker?_ne_add {locate : UInt16} {type : UpdateType} (hmarker : marker? locate = some type) :
    ¬ (type = .add ∨ type = .addMpid) := by
  unfold marker? at hmarker
  split_ifs at hmarker
  all_goals
    obtain rfl := Option.some.inj hmarker
    decide

theorem decodeOrderDelete_touches :
    ∃ result, decoder.decodeOrderDelete msg out = some result
      ∧ Touches decoder msg result
        (touch .orderDelete msg out (decoder.live? msg.stockLocate msg.ref)) := by
  cases hmarker : marker? msg.locate with
  | some type =>
      refine ⟨_, decodeOrderDelete_marker hmarker, touches_unchanged ?_ ?_⟩
      · simp [touch, hmarker]
      · simp only [touch, hmarker, Option.some.injEq, Prod.mk.injEq]
        rintro update entry ⟨rfl, rfl⟩
        exact ⟨rfl, rfl, marker?_ne_add hmarker⟩
  | none =>
      obtain ⟨hstart, hclear, hend⟩ := marker?_eq_none hmarker
      simp only [touch, hmarker]
      rcases decoder.state?_cases msg.stockLocate msg.ref with
        ⟨hnone, hdead⟩ | ⟨state, hlive, hstate, hqty⟩
      · have hreject : decoder.decodeOrderDelete msg out = some ⟨false,
            { out with type := .delete, qty := 0, orderRef := msg.ref, newRef := 0 }, decoder⟩ := by
          unfold decodeOrderDelete
          rw [if_neg hstart, if_neg hclear, if_neg hend]
          cases hstate : decoder.state? msg.stockLocate msg.ref with
          | none => rfl
          | some state => simp [hdead state hstate]
        exact ⟨_, hreject, touches_unchanged (by simp [hnone]) (by simp [hnone])⟩
      · obtain ⟨written, hwrite, hlive', hsize, hmore, hcount⟩ :=
          setState?_spec hstate { state with qty := 0 }
        have hdecode : decoder.decodeOrderDelete msg out =
            some ⟨true, entryUpdate .delete 0 0 msg state out,
              { written with trackedOrderCount := written.trackedOrderCount - 1 }⟩ := by
          simp [decodeOrderDelete, hstart, hclear, hend, hstate, hqty, hwrite, entryUpdate]
        rw [hlive, Option.map_some]
        refine ⟨_, hdecode, touches_write hlive' hsize hmore ?_⟩
        rw [counted, if_neg (by simp [entryUpdate]), if_pos (by simp [hlive]), hcount]

/-- **Every message** but a replace acts on the live entry of its order. -/
theorem decodeMessage_touches {type : MsgType} (hreplace : type ≠ .orderReplace)
    (hvalid : type = .addOrder ∨ type = .addOrderMpid → msg.ref ≠ orderIdInvalid) :
    ∃ result, decoder.decodeMessage type msg out = some result
      ∧ Touches decoder msg result (touch type msg out (decoder.live? msg.stockLocate msg.ref)) := by
  cases type with
  | systemEvent => exact ⟨_, rfl, touches_unchanged rfl (by simp [touch])⟩
  | addOrder => exact decodeAdd_touches .add (Or.inl rfl) (hvalid (Or.inl rfl))
  | addOrderMpid => exact decodeAdd_touches .addMpid (Or.inr rfl) (hvalid (Or.inr rfl))
  | orderExecuted => exact decodeReduction_touches .execute (by simp) _ _
  | orderCancel => exact decodeReduction_touches .cancel (by simp) _ _
  | orderDelete => exact decodeOrderDelete_touches
  | orderReplace => exact absurd rfl hreplace

/-! ### Replaces -/

/-- The vector of the ticker is moved to make room for the new reference. -/
def Reallocates (decoder : ItchDecoder) (msg : Payload) : Prop :=
  ∃ slot ∈ decoder.orderRefMap[msg.stockLocate]?,
    slot.size ≤ msg.newRef ∧ slot.capacity < (slot.reserve msg.newRef).size

instance (decoder : ItchDecoder) (msg : Payload) : Decidable (decoder.Reallocates msg) :=
  inferInstanceAs (Decidable (∃ _ ∈ _, _))

/-- A replace of a live order moves the vector that holds it, so that the write that kills the old
order goes to the storage given up. -/
def Dangles (decoder : ItchDecoder) (msg : Payload) : MsgType → Prop
  | .orderReplace => (decoder.live? msg.stockLocate msg.ref).isSome = true ∧ decoder.Reallocates msg
  | _ => False

instance (decoder : ItchDecoder) (msg : Payload) : ∀ type, Decidable (decoder.Dangles msg type)
  | .orderReplace => inferInstanceAs (Decidable (_ ∧ _))
  | .systemEvent | .addOrder | .addOrderMpid | .orderExecuted | .orderCancel | .orderDelete => isFalse id

def replaceUpdate (msg : Payload) (state : OrderState) (out : MarketUpdate) : MarketUpdate :=
  { out with
    type := .replace, price := msg.newPrice, qty := msg.newShares, orderRef := msg.ref
    newRef := msg.newRef, side := state.side, tickerId := state.tickerId }

/-- What replaces the old order. -/
def replacement (msg : Payload) (state : OrderState) : OrderState :=
  ⟨state.side, msg.newPrice, msg.newShares, state.tickerId⟩

/-- The result of a replace of a live order: the new entry is written first, and then the old one is
killed. -/
structure Replaces (decoder : ItchDecoder) (msg : Payload) (out : MarketUpdate) (state : OrderState)
    (result : Decoded) : Prop where
  accepted : result.accepted = true
  update : result.update = replaceUpdate msg state out
  live : ∀ ticker ref, result.decoder.live? ticker ref =
    if ticker = msg.stockLocate then
      if ref = msg.ref then none
      else if ref = msg.newRef then OrderState.entry? (replacement msg state)
      else decoder.live? ticker ref
    else decoder.live? ticker ref
  count : result.decoder.trackedOrderCount = decoder.trackedOrderCount + 1

/-- A replace of an order that is not live is turned down. -/
theorem decodeOrderReplace_of_dead (decoder : ItchDecoder) (out : MarketUpdate)
    (hnone : decoder.live? msg.stockLocate msg.ref = none) :
    decoder.decodeOrderReplace msg out = some ⟨false, { out with
      type := .replace, price := msg.newPrice, qty := msg.newShares, orderRef := msg.ref
      newRef := msg.newRef }, decoder⟩ := by
  rcases decoder.state?_cases msg.stockLocate msg.ref with ⟨-, hdead⟩ | ⟨state, hlive, -⟩
  · unfold decodeOrderReplace
    cases hslot : decoder.orderRefMap[msg.stockLocate]? with
    | none => rfl
    | some slot =>
        cases hget : slot.get? msg.ref with
        | none => simp only [hget]
        | some state =>
            have hzero : state.qty = 0 := hdead state (by simp [state?, hslot, hget])
            simp only [hget, if_pos hzero]
  · rw [hnone] at hlive
    cases hlive

/-- For the largest reference the new size wraps to zero. -/
theorem set?_reserve_invalid (slot : OrderVector) (state : OrderState) :
    (slot.reserve orderIdInvalid).set? orderIdInvalid state = none := by
  have hle : slot.size ≤ orderIdInvalid := by
    rw [UInt64.le_iff_toNat_le]
    have := slot.size.toNat_lt
    exact Nat.le_of_lt_succ this
  have hsize : (slot.reserve orderIdInvalid).size = 0 := by
    rw [OrderVector.reserve, if_pos hle, OrderVector.resize]
    split <;> rfl
  rw [OrderVector.set?, dif_neg]
  rw [hsize]
  exact UInt64.not_lt_zero

theorem decodeAdd_of_invalid (type : UpdateType) (hinvalid : msg.ref = orderIdInvalid) :
    decodeAdd type decoder msg out = none := by
  simp [decodeAdd, hinvalid, set?_reserve_invalid]

section LiveOrder

variable {state : OrderState} (hlive : decoder.live? msg.stockLocate msg.ref = some state)

include hlive

/-- The vector of a live order and what a replace does with it. -/
theorem decodeOrderReplace_of_live (out : MarketUpdate) :
    ∃ slot, decoder.orderRefMap[msg.stockLocate]? = some slot ∧ slot.get? msg.ref = some state
      ∧ (decoder.Reallocates msg
        ↔ slot.size ≤ msg.newRef ∧ slot.capacity < (slot.reserve msg.newRef).size)
      ∧ decoder.decodeOrderReplace msg out =
        ((slot.reserve msg.newRef).set? msg.newRef (replacement msg state)).bind fun written =>
          if slot.size ≤ msg.newRef ∧ slot.capacity < (slot.reserve msg.newRef).size then none
          else (written.get? msg.ref).bind fun current =>
            (written.set? msg.ref { current with qty := 0 }).bind fun final =>
              some ⟨true, replaceUpdate msg state out, { decoder with
                orderRefMap := decoder.orderRefMap.insert msg.stockLocate final
                trackedOrderCount := decoder.trackedOrderCount + 1 }⟩ := by
  rcases decoder.state?_cases msg.stockLocate msg.ref with ⟨hnone, -⟩ | ⟨state', hlive', hstate, hqty⟩
  · rw [hnone] at hlive
    cases hlive
  obtain rfl : state' = state := Option.some.inj (hlive'.symm.trans hlive)
  obtain ⟨slot, hslot, hget⟩ := Option.bind_eq_some_iff.mp hstate
  refine ⟨slot, hslot, hget, by simp [Reallocates, hslot], ?_⟩
  unfold decodeOrderReplace
  simp only [hslot, hget, if_neg hqty]
  rfl

/-- A replace that moves the vector of a live order is undefined. -/
theorem decodeOrderReplace_of_moved (out : MarketUpdate) (hmoved : decoder.Reallocates msg) :
    decoder.decodeOrderReplace msg out = none := by
  obtain ⟨slot, -, -, hiff, heq⟩ := decodeOrderReplace_of_live hlive out
  rw [heq, Option.bind_eq_none_iff]
  intro written _
  exact if_pos (hiff.mp hmoved)

theorem decodeOrderReplace_of_invalid (out : MarketUpdate) (hinvalid : msg.newRef = orderIdInvalid) :
    decoder.decodeOrderReplace msg out = none := by
  obtain ⟨slot, -, -, -, heq⟩ := decodeOrderReplace_of_live hlive out
  rw [heq, hinvalid, set?_reserve_invalid, Option.bind_none]

/-- **A replace** takes a live order to its new reference. -/
theorem decodeOrderReplace_replaces (out : MarketUpdate) (hvalid : msg.newRef ≠ orderIdInvalid)
    (hstays : ¬ decoder.Reallocates msg) :
    ∃ result, decoder.decodeOrderReplace msg out = some result
      ∧ Replaces decoder msg out state result := by
  obtain ⟨slot, hslot, hget, hiff, heq⟩ := decodeOrderReplace_of_live hlive out
  obtain ⟨hlt, hreserve⟩ := slot.reserve_spec hvalid
  obtain ⟨written, hset⟩ := OrderVector.set?_of_lt hlt (replacement msg state)
  have hwritten : ∀ ref, written.live? ref =
      if ref = msg.newRef then OrderState.entry? (replacement msg state)
      else decoder.live? msg.stockLocate ref := fun ref => by
    rw [OrderVector.live?_set? hset, hreserve]
    simp [ItchDecoder.live?, hslot]
  -- the old entry is still inside the vector, so the write through the reference has a target
  have hold : msg.ref < written.size := by
    rw [OrderVector.size_set? hset]
    exact UInt64.lt_of_lt_of_le (OrderVector.lt_of_get? hget) (OrderVector.size_le_reserve hvalid)
  obtain ⟨current, hcurrent⟩ := OrderVector.get?_of_lt hold
  obtain ⟨final, hfinal⟩ := OrderVector.set?_of_lt hold { current with qty := 0 }
  rw [heq, hset, Option.bind_some, if_neg fun h => hstays (hiff.mpr h), hcurrent, Option.bind_some,
    hfinal, Option.bind_some]
  refine ⟨_, rfl, rfl, rfl, fun ticker ref => ?_, rfl⟩
  refine (live?_insert decoder msg.stockLocate final ticker ref).trans ?_
  rw [OrderVector.live?_set? hfinal, hwritten]
  by_cases hticker : ticker = msg.stockLocate
  · rw [if_pos hticker, if_pos hticker, hticker]
    rfl
  · rw [if_neg hticker, if_neg hticker]

end LiveOrder

/-- What a replace that is defined has done: it was turned down without a trace, or it took a live order
to its new reference in a vector that stayed where it was. -/
theorem decodeOrderReplace_cases {result : Decoded}
    (hdecode : decoder.decodeOrderReplace msg out = some result) :
    (decoder.live? msg.stockLocate msg.ref = none ∧ result.accepted = false ∧ result.decoder = decoder)
      ∨ ∃ state, decoder.live? msg.stockLocate msg.ref = some state ∧ msg.newRef ≠ orderIdInvalid
        ∧ ¬ decoder.Reallocates msg ∧ Replaces decoder msg out state result := by
  cases hlive : decoder.live? msg.stockLocate msg.ref with
  | none =>
      rw [decodeOrderReplace_of_dead decoder out hlive] at hdecode
      obtain rfl := Option.some.inj hdecode
      exact Or.inl ⟨rfl, rfl, rfl⟩
  | some state =>
      have hvalid : msg.newRef ≠ orderIdInvalid := by
        intro hinvalid
        rw [decodeOrderReplace_of_invalid hlive out hinvalid] at hdecode
        cases hdecode
      have hstays : ¬ decoder.Reallocates msg := by
        intro hmoved
        rw [decodeOrderReplace_of_moved hlive out hmoved] at hdecode
        cases hdecode
      obtain ⟨result', hdecode', hreplaces⟩ := decodeOrderReplace_replaces hlive out hvalid hstays
      obtain rfl := Option.some.inj (hdecode.symm.trans hdecode')
      exact Or.inr ⟨state, rfl, hvalid, hstays, hreplaces⟩

end Messages

theorem decode_eq_decodeMessage {wire : List UInt8} {out : MarketUpdate} {type : MsgType}
    (htype : MsgType.ofByte? (wire.getD 8 0) = some type)
    (hlength : 8 + type.payloadSize ≤ wire.length) :
    decoder.decode wire out =
      decodeMessage { decoder with lastDecodedSize := type.payloadSize, needMoreData := false }
        type (wire.drop 8) { out with seqNum := UInt64.ofNat (field wire 0 8) } := by
  have hsize : 8 + 1 ≤ wire.length := by
    have hpos : 1 ≤ type.payloadSize := by cases type <;> decide
    omega
  simp only [decode, htype]
  rw [if_neg (by omega), if_neg (by omega)]

theorem decodeSnapshot_eq_decodeMessage {wire : List UInt8} {out : MarketUpdate} {type : MsgType}
    (htype : MsgType.ofByte? (wire.getD 0 0) = some type) (hlength : type.payloadSize ≤ wire.length) :
    decoder.decodeSnapshot wire out =
      decodeMessage { decoder with lastDecodedSize := type.payloadSize } type wire
        { out with seqNum := 0 } := by
  have hpos : 1 ≤ type.payloadSize := by cases type <;> decide
  simp only [decodeSnapshot, htype]
  rw [if_neg (by omega), if_neg (by omega)]

end ItchDecoder

end AlphaTrader
