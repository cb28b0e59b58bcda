import AlphaTrader.Proof.ResponseParsing

/-!
# Requests can be read back

The gateway writes packed structs of three sizes one behind the other. A reader that looks at the type
byte, takes as many bytes as that type has and reads the members at their offsets recovers the requests.
-/

namespace AlphaTrader

open OrderGateway

/-! ### Packed structs -/

/-- A member of a packed struct is found behind the members before it. -/
theorem slice_member (members : List (List UInt8)) (index : Nat) {member : List UInt8} {offset width : Nat}
    (hmember : members[index]? = some member)
    (hoffset : ((members.take index).map List.length).sum = offset) (hwidth : member.length = width) :
    slice members.flatten offset width = member := by
  subst hoffset hwidth
  induction members generalizing index with
  | nil => cases hmember
  | cons first members ih =>
      cases index with
      | zero =>
          obtain rfl : first = member := by simpa using hmember
          simp [slice]
      | succ index =>
          rw [List.take_succ_cons, List.map_cons, List.sum_cons, List.flatten_cons, slice,
            List.drop_length_add_append]
          exact ih index (by simpa using hmember)

theorem getD_of_slice {msg : List UInt8} {offset : Nat} {byte : UInt8}
    (hslice : slice msg offset 1 = [byte]) : msg.getD offset 0 = byte := by
  have hhead : (slice msg offset 1).head? = some byte := by rw [hslice]; rfl
  rw [slice, List.head?_take, if_neg one_ne_zero, List.head?_drop] at hhead
  simp [hhead]

@[simp]
theorem length_makeToken (id : OrderId) : (makeToken id).length = 14 := by
  simp [makeToken]

@[simp]
theorem length_writeTicker (tickerId : TickerId) : (writeTicker tickerId).length = 8 :=
  length_beBytes 8 _

/-! ### The reader -/

/-- What a request says to the exchange. -/
inductive OuchRequest where
  | enter (id : OrderId) (side : Side) (qty : Quantity) (tickerId : TickerId) (price : Price) (ioc : Bool)
  | cancel (id : OrderId) (qty : Quantity)
  | replace (id newId : OrderId) (qty : Quantity) (price : Price) (ioc : Bool)
  deriving DecidableEq, Repr

namespace OuchRequest

def sideOfByte? (byte : UInt8) : Option Side :=
  if byte = 66 then some .buy else if byte = 83 then some .sell else none

/-- The sizes of the three structs; no other type is known. -/
def size (type : UInt8) : Nat :=
  if type = 79 then 45 else if type = 88 then 19 else if type = 85 then 43 else 0

/-- The members of one message. -/
def read? (msg : List UInt8) : Option OuchRequest :=
  if msg.head? = some 79 then
    (sideOfByte? (msg.getD 15 0)).map fun side =>
      enter (parseToken (slice msg 1 14)) side (wire32 msg 16) (wire64 msg 20).toUInt32
        (wire32 msg 28).toInt32 (wire32 msg 32 = 0)
  else if msg.head? = some 88 then
    some (cancel (parseToken (slice msg 1 14)) (wire32 msg 15))
  else if msg.head? = some 85 then
    some (replace (parseToken (slice msg 1 14)) (parseToken (slice msg 15 14)) (wire32 msg 29)
      (wire32 msg 33).toInt32 (wire32 msg 37 = 0))
  else none

/-- One message is taken off the front of the stream. -/
def pass (state : List OuchRequest × List UInt8) :
    Option ((List OuchRequest × List UInt8) ⊕ (List OuchRequest × List UInt8)) :=
  match state with
  | (requests, []) => some (.inr (requests, []))
  | (requests, type :: rest) =>
      let data := type :: rest
      if size type = 0 then none
      else if data.length < size type then some (.inr (requests, data))
      else (read? (data.take (size type))).map fun request =>
        .inl (requests ++ [request], data.drop (size type))

/-- The requests on a stream, and the bytes of a message that is not complete. -/
def readAll (bytes : List UInt8) : Option (List OuchRequest × List UInt8) :=
  Incremental.parse pass [] bytes

end OuchRequest

namespace OrderRequest

/-- The request passes the gateway's `ASSERT`s. -/
def Admitted (req : OrderRequest) : Prop :=
  match req.type with
  | .new => req.tickerId ≠ tickerIdInvalid ∧ 0 ≤ req.price
  | .cancel => True
  | .replace => req.newClientOrderId ≠ 0 ∧ 0 ≤ req.price

instance (req : OrderRequest) : Decidable req.Admitted := by
  unfold Admitted
  split <;> infer_instance

def ouch (req : OrderRequest) : OuchRequest :=
  match req.type with
  | .new => .enter req.clientOrderId req.side req.qty req.tickerId req.price req.ioc
  | .cancel => .cancel req.clientOrderId req.qty
  | .replace => .replace req.clientOrderId req.newClientOrderId req.qty req.price req.ioc

end OrderRequest

/-! ### One message -/

theorem sideOfByte?_sideByte (side : Side) : OuchRequest.sideOfByte? (sideByte side) = some side := by
  cases side <;> rfl

theorem timeInForce_eq_zero_iff (ioc : Bool) : timeInForce ioc = 0 ↔ ioc = true := by
  cases ioc <;> simp [timeInForce]

theorem read?_enterOrder (req : OrderRequest) : OuchRequest.read? (enterOrder req).flatten =
    some (.enter req.clientOrderId req.side req.qty req.tickerId req.price req.ioc) := by
  have hhead : (enterOrder req).flatten.head? = some 79 := rfl
  have htoken : slice (enterOrder req).flatten 1 14 = makeToken req.clientOrderId :=
    slice_member _ 1 rfl (by simp [enterOrder]) (by simp)
  have hside : slice (enterOrder req).flatten 15 1 = [sideByte req.side] :=
    slice_member _ 2 rfl (by simp [enterOrder]) (by simp)
  have hshares : slice (enterOrder req).flatten 16 4 = beBytes 4 req.qty.toNat :=
    slice_member _ 3 rfl (by simp [enterOrder]) (by simp)
  have hstock : slice (enterOrder req).flatten 20 8 = beBytes 8 req.tickerId.toUInt64.toNat :=
    slice_member _ 4 rfl (by simp [enterOrder]) (by simp)
  have hprice : slice (enterOrder req).flatten 28 4 = beBytes 4 req.price.toUInt32.toNat :=
    slice_member _ 5 rfl (by simp [enterOrder]) (by simp)
  have htime : slice (enterOrder req).flatten 32 4 = beBytes 4 (timeInForce req.ioc).toNat :=
    slice_member _ 6 rfl (by simp [enterOrder]) (by simp)
  rw [OuchRequest.read?, if_pos hhead, getD_of_slice hside, sideOfByte?_sideByte, htoken,
    parseToken_makeToken, wire32_of_slice hshares, wire64_of_slice hstock, wire32_of_slice hprice,
    wire32_of_slice htime]
  simp [timeInForce_eq_zero_iff]

theorem read?_cancelOrder (req : OrderRequest) : OuchRequest.read? (cancelOrder req).flatten =
    some (.cancel req.clientOrderId req.qty) := by
  have hhead : (cancelOrder req).flatten.head? = some 88 := rfl
  have htoken : slice (cancelOrder req).flatten 1 14 = makeToken req.clientOrderId :=
    slice_member _ 1 rfl (by simp [cancelOrder]) (by simp)
  have hshares : slice (cancelOrder req).flatten 15 4 = beBytes 4 req.qty.toNat :=
    slice_member _ 2 rfl (by simp [cancelOrder]) (by simp)
  rw [OuchRequest.read?, hhead, if_neg (by simp), if_pos rfl, htoken, parseToken_makeToken,
    wire32_of_slice hshares]

theorem read?_replaceOrder (req : OrderRequest) : OuchRequest.read? (replaceOrder req).flatten =
    some (.replace req.clientOrderId req.newClientOrderId req.qty req.price req.ioc) := by
  have hhead : (replaceOrder req).flatten.head? = some 85 := rfl
  have htoken : slice (replaceOrder req).flatten 1 14 = makeToken req.clientOrderId :=
    slice_member _ 1 rfl (by simp [replaceOrder]) (by simp)
  have hnewToken : slice (replaceOrder req).flatten 15 14 = makeToken req.newClientOrderId :=
    slice_member _ 2 rfl (by simp [replaceOrder]) (by simp)
  have hshares : slice (replaceOrder req).flatten 29 4 = beBytes 4 req.qty.toNat :=
    slice_member _ 3 rfl (by simp [replaceOrder]) (by simp)
  have hprice : slice (replaceOrder req).flatten 33 4 = beBytes 4 req.price.toUInt32.toNat :=
    slice_member _ 4 rfl (by simp [replaceOrder]) (by simp)
  have htime : slice (replaceOrder req).flatten 37 4 = beBytes 4 (timeInForce req.ioc).toNat :=
    slice_member _ 5 rfl (by simp [replaceOrder]) (by simp)
  rw [OuchRequest.read?, hhead, if_neg (by simp), if_neg (by simp), if_pos rfl, htoken,
    parseToken_makeToken, hnewToken, parseToken_makeToken, wire32_of_slice hshares,
    wire32_of_slice hprice, wire32_of_slice htime]
  simp [timeInForce_eq_zero_iff]

/-- **An admitted request** is sent as one message of the size of its type that says what it says. -/
theorem send_of_admitted {req : OrderRequest} (hadmitted : req.Admitted) :
    ∃ type rest, send req = some (type :: rest) ∧ OuchRequest.size type = (type :: rest).length
      ∧ OuchRequest.read? (type :: rest) = some req.ouch := by
  unfold OrderRequest.Admitted at hadmitted
  unfold send OrderRequest.ouch
  cases htype : req.type <;> simp only [htype] at hadmitted
  case new =>
      have hsend : sendEnter req = some (enterOrder req).flatten := by
        rw [sendEnter, if_neg hadmitted.1, if_neg (Int32.not_lt.mpr hadmitted.2)]
      exact ⟨79, _, hsend, by simp [OuchRequest.size], read?_enterOrder req⟩
  case cancel => exact ⟨88, _, rfl, by simp [OuchRequest.size], read?_cancelOrder req⟩
  case replace =>
      have hsend : sendReplace req = some (replaceOrder req).flatten := by
        rw [sendReplace, if_neg hadmitted.1, if_neg (Int32.not_lt.mpr hadmitted.2)]
      exact ⟨85, _, hsend, by simp [OuchRequest.size], read?_replaceOrder req⟩

/-! ### Streams -/

namespace OuchRequest

variable {requests : List OuchRequest}

theorem pass_take {type : UInt8} {rest : List UInt8} (hsize : size type ≠ 0)
    (hlong : size type ≤ (type :: rest).length) (more : List UInt8) :
    pass (requests, type :: rest ++ more) =
      (read? ((type :: rest).take (size type))).map fun request =>
        .inl (requests ++ [request], (type :: rest).drop (size type) ++ more) := by
  have hlonger : ¬ (type :: (rest ++ more)).length < size type := by
    rw [← List.cons_append, List.length_append]
    omega
  rw [List.cons_append, pass]
  simp only [if_neg hsize, if_neg hlonger]
  rw [← List.cons_append, List.take_append_of_le_length hlong, List.drop_append_of_le_length hlong]

theorem pass_settled (requests : List OuchRequest) (data : List UInt8) :
    Incremental.Settled pass requests data := by
  cases data with
  | nil => exact Or.inl rfl
  | cons type rest =>
      by_cases hsize : size type = 0
      · exact Or.inr (Or.inl fun more => by simp [pass, hsize])
      by_cases hshort : (type :: rest).length < size type
      · exact Or.inl (by simp only [pass, if_neg hsize, if_pos hshort])
      have hlong : size type ≤ (type :: rest).length := Nat.le_of_not_lt hshort
      cases hread : read? ((type :: rest).take (size type)) with
      | none => exact Or.inr (Or.inl fun more => by rw [pass_take hsize hlong, hread]; rfl)
      | some request =>
          refine Or.inr (Or.inr ⟨requests ++ [request], (type :: rest).drop (size type), ?_, fun more => ?_⟩)
          · rw [List.length_drop, List.length_cons]
            omega
          · rw [pass_take hsize hlong, hread]
            rfl

theorem pass_stable : Incremental.Stable pass := .of_settled pass_settled

/-- **One message** with anything behind it. -/
theorem pass_message {type : UInt8} {rest : List UInt8} {request : OuchRequest}
    (hsize : size type = (type :: rest).length) (hread : read? (type :: rest) = some request)
    (more : List UInt8) :
    pass (requests, type :: rest ++ more) = some (.inl (requests ++ [request], more)) := by
  have hpos : size type ≠ 0 := by simp [hsize]
  rw [pass_take hpos hsize.le, hsize, List.take_length, List.drop_length, hread]
  rfl

end OuchRequest

theorem foldlM_send (sent : List UInt8) (requests : List OrderRequest) :
    requests.foldlM (fun sent req => (send req).map (sent ++ ·)) sent = (run requests).map (sent ++ ·) := by
  induction requests generalizing sent with
  | nil => simp [run]
  | cons req requests ih =>
      rw [run, List.foldlM_cons, List.foldlM_cons]
      cases send req with
      | none => rfl
      | some bytes =>
          simp only [Option.map_some, Option.bind_eq_bind, Option.bind_some, ih, Option.map_map]
          congr 1
          funext rest
          simp

theorem run_cons (req : OrderRequest) (requests : List OrderRequest) :
    run (req :: requests) = (send req).bind fun sent => (run requests).map (sent ++ ·) := by
  rw [run, List.foldlM_cons]
  cases send req with
  | none => rfl
  | some bytes => exact foldlM_send bytes requests

theorem parse_run {requests : List OrderRequest} (hadmitted : ∀ req ∈ requests, req.Admitted)
    (seen : List OuchRequest) :
    ∃ bytes, run requests = some bytes
      ∧ Incremental.parse OuchRequest.pass seen bytes = some (seen ++ requests.map OrderRequest.ouch, []) := by
  induction requests generalizing seen with
  | nil => exact ⟨[], rfl, by simp [Incremental.parse, Loop.run, OuchRequest.pass]⟩
  | cons req requests ih =>
      obtain ⟨type, rest, hsend, hsize, hread⟩ := send_of_admitted (hadmitted req (by simp))
      obtain ⟨bytes, hrun, hparse⟩ := ih (fun r hr => hadmitted r (by simp [hr])) (seen ++ [req.ouch])
      refine ⟨type :: rest ++ bytes, ?_, ?_⟩
      · rw [run_cons, hsend, hrun]
        rfl
      · rw [Incremental.parse_of_go OuchRequest.pass_stable (OuchRequest.pass_message hsize hread bytes),
          hparse]
        simp

/-- **Requests round-trip**: every stream of admitted requests is read back as these requests, with
nothing left over. -/
theorem requests_read_back (requests : List OrderRequest) (hadmitted : ∀ req ∈ requests, req.Admitted) :
    ∃ bytes, run requests = some bytes
      ∧ OuchRequest.readAll bytes = some (requests.map OrderRequest.ouch, []) :=
  parse_run hadmitted []

/-- An order is entered, reduced and replaced by one that does not rest. -/
theorem requests_read_back_replaced :
    ∃ bytes, run [{ clientOrderId := 101, tickerId := 1, side := .sell, price := 1234567, qty := 25 },
        { type := .cancel, clientOrderId := 101, qty := 10 },
        { type := .replace, clientOrderId := 101, newClientOrderId := 102, price := 1234568, qty := 15,
          ioc := true }] = some bytes
      ∧ OuchRequest.readAll bytes = some ([.enter 101 .sell 25 1 1234567 false, .cancel 101 10,
        .replace 101 102 15 1234568 true], []) :=
  requests_read_back _ (by decide)

end AlphaTrader
