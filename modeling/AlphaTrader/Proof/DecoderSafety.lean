import AlphaTrader.Proof.DecoderLocality
import AlphaTrader.Proof.TrackedOrders

/-!
# The bytes and the entries a call reaches

A call reads the wire through a byte for the type and, once the length is known to suffice, through the
fields of one struct. Entries of a vector are reached after a check of its size, or after growing it to
`ref + 1`. Only the latter can fail: for the largest reference the sum wraps, the vector is emptied, and
the write that follows is past its end. A call whose indices are all in range is defined, but for the
write of a replace through a reference that growing the vector has left dangling, which is no index.
-/

namespace AlphaTrader

namespace ItchDecoder

variable {decoder : ItchDecoder} {msg : Payload} {type : MsgType} {out : MarketUpdate}

/-! ### Reads of the wire -/

def Call.wire : Call → List UInt8
  | .decode wire _ | .decodeSnapshot wire _ => wire
  | .reset => []

/-- The ranges of the wire that a call reads: the type, the sequence number in front of a complete
message of the feed, and the fields of a complete message. -/
def Call.reads : Call → List (Nat × Nat)
  | .decode wire _ =>
      if wire.length < 8 + 1 then []
      else (8, 1) :: (framed? 8 wire).elim [] fun message =>
        (0, 8) :: (fieldsRead message.1).map fun read => (8 + read.1, read.2)
  | .decodeSnapshot wire _ =>
      if wire.length = 0 then []
      else (0, 1) :: (framed? 0 wire).elim [] fun message => fieldsRead message.1
  | .reset => []

/-- Every read stays inside the wire. -/
theorem reads_inside (c : Call) : ∀ read ∈ c.reads, read.1 + read.2 ≤ c.wire.length := by
  cases c with
  | reset => nofun
  | decode wire out =>
      intro read hread
      simp only [Call.reads, Call.wire] at hread ⊢
      split at hread
      case isTrue => cases hread
      case isFalse hlength =>
          rcases List.mem_cons.mp hread with rfl | hread
          · omega
          · cases hmessage : framed? 8 wire with
            | none =>
                rw [hmessage] at hread
                cases hread
            | some message =>
                obtain ⟨type, msg⟩ := message
                obtain ⟨-, hsize, -⟩ := framed?_eq_some_iff.mp hmessage
                rw [hmessage] at hread
                rcases List.mem_cons.mp hread with rfl | hread
                · omega
                · obtain ⟨inner, hinner, rfl⟩ := List.mem_map.mp hread
                  have hfits := fieldsRead_inside type inner hinner
                  omega
  | decodeSnapshot wire out =>
      intro read hread
      simp only [Call.reads, Call.wire] at hread ⊢
      split at hread
      case isTrue => cases hread
      case isFalse hlength =>
          rcases List.mem_cons.mp hread with rfl | hread
          · omega
          · cases hmessage : framed? 0 wire with
            | none =>
                rw [hmessage] at hread
                cases hread
            | some message =>
                obtain ⟨type, msg⟩ := message
                obtain ⟨-, hsize, -⟩ := framed?_eq_some_iff.mp hmessage
                rw [hmessage] at hread
                have hfits := fieldsRead_inside type read hread
                omega

theorem getD_congr {header : Nat} {wire wire' : List UInt8}
    (hagree : (wire.drop header).take 1 = (wire'.drop header).take 1) :
    wire.getD header 0 = wire'.getD header 0 := by
  have hhead := congrArg List.head? hagree
  simp only [List.head?_take, List.head?_drop, one_ne_zero, if_false] at hhead
  rw [List.getD_eq_getElem?_getD, List.getD_eq_getElem?_getD, hhead]

/-- What `decode` does depends on the length of the wire and on the bytes it reads. -/
theorem decode_congr_reads (decoder : ItchDecoder) (out : MarketUpdate) {wire wire' : List UInt8}
    (hlength : wire.length = wire'.length)
    (hagree : AgreeOn (Call.reads (.decode wire out)) wire wire') :
    decoder.decode wire out = decoder.decode wire' out := by
  by_cases hshort : wire.length < 8 + 1
  · simp only [decode, if_pos hshort, if_pos (hlength ▸ hshort)]
  rw [Call.reads, if_neg hshort] at hagree
  have hbyte := getD_congr (hagree _ List.mem_cons_self)
  cases hmessage : framed? 8 wire with
  | none =>
      have htruncated := framed?_eq_none_iff.mp hmessage
      simp only [decode, if_neg hshort, if_neg (hlength ▸ hshort), ← hbyte]
      cases htype : MsgType.ofByte? (wire.getD 8 0) with
      | none => rfl
      | some type =>
          have hless := htruncated type htype
          simp only [if_pos hless, if_pos (hlength ▸ hless)]
  | some message =>
      obtain ⟨type, msg⟩ := message
      obtain ⟨htype, hsize, rfl⟩ := framed?_eq_some_iff.mp hmessage
      rw [decode_eq_decodeMessage htype hsize, decode_eq_decodeMessage (hbyte ▸ htype) (hlength ▸ hsize)]
      rw [hmessage] at hagree
      have hseq : field wire 0 8 = field wire' 0 8 :=
        congrArg beNat (hagree (0, 8) (List.mem_cons_of_mem _ List.mem_cons_self))
      rw [hseq]
      refine decodeMessage_congr_fields _ _ fun read hread => ?_
      rw [List.drop_drop, List.drop_drop]
      exact hagree (8 + read.1, read.2)
        (List.mem_cons_of_mem _ (List.mem_cons_of_mem _ (List.mem_map_of_mem hread)))

theorem decodeSnapshot_congr_reads (decoder : ItchDecoder) (out : MarketUpdate) {wire wire' : List UInt8}
    (hlength : wire.length = wire'.length)
    (hagree : AgreeOn (Call.reads (.decodeSnapshot wire out)) wire wire') :
    decoder.decodeSnapshot wire out = decoder.decodeSnapshot wire' out := by
  by_cases hempty : wire.length = 0
  · simp only [decodeSnapshot, if_pos hempty, if_pos (hlength ▸ hempty)]
  rw [Call.reads, if_neg hempty] at hagree
  have hbyte := getD_congr (hagree _ List.mem_cons_self)
  cases hmessage : framed? 0 wire with
  | none =>
      have htruncated := framed?_eq_none_iff.mp hmessage
      simp only [decodeSnapshot, if_neg hempty, if_neg (hlength ▸ hempty), ← hbyte]
      cases htype : MsgType.ofByte? (wire.getD 0 0) with
      | none => rfl
      | some type =>
          have hless : wire.length < type.payloadSize := by
            simpa using htruncated type htype
          simp only [if_pos hless, if_pos (hlength ▸ hless)]
  | some message =>
      obtain ⟨type, msg⟩ := message
      obtain ⟨htype, hsize, rfl⟩ := framed?_eq_some_iff.mp hmessage
      rw [zero_add] at hsize
      rw [decodeSnapshot_eq_decodeMessage htype hsize,
        decodeSnapshot_eq_decodeMessage (hbyte ▸ htype) (hlength ▸ hsize)]
      rw [hmessage] at hagree
      exact decodeMessage_congr_fields _ _ fun read hread => hagree read (List.mem_cons_of_mem _ hread)

/-! ### Entries of the vectors -/

/-- The index into a vector behind a check of its size, with the size. -/
def checkedIndex (decoder : ItchDecoder) (msg : Payload) : List (OrderId × UInt64) :=
  (decoder.orderRefMap[msg.stockLocate]?.elim [] fun slot =>
    if slot.size ≤ msg.ref then [] else [(msg.ref, slot.size)])

/-- The index into a vector that has just been grown for it, with the size. -/
def grownIndex (decoder : ItchDecoder) (msg : Payload) (ref : OrderId) : OrderId × UInt64 :=
  (ref, ((decoder.orderRefMap[msg.stockLocate]?.getD default).reserve ref).size)

/-- Every index into a vector that a message uses, each with the size of the vector at that moment. -/
def indices (decoder : ItchDecoder) (msg : Payload) : MsgType → List (OrderId × UInt64)
  | .systemEvent => []
  | .addOrder | .addOrderMpid => [decoder.grownIndex msg msg.ref]
  | .orderExecuted | .orderCancel => decoder.checkedIndex msg
  | .orderDelete => if (marker? msg.locate).isSome then [] else decoder.checkedIndex msg
  | .orderReplace => decoder.checkedIndex msg
      ++ if (decoder.live? msg.stockLocate msg.ref).isSome then [decoder.grownIndex msg msg.newRef] else []

/-- A message that grows a vector does so for a reference that a vector can hold. -/
def InRange (decoder : ItchDecoder) (msg : Payload) : MsgType → Prop
  | .addOrder | .addOrderMpid => msg.ref ≠ orderIdInvalid
  | .orderReplace => decoder.live? msg.stockLocate msg.ref ≠ none → msg.newRef ≠ orderIdInvalid
  | _ => True

theorem checkedIndex_inside : ∀ index ∈ decoder.checkedIndex msg, index.1 < index.2 := by
  intro index hmem
  unfold checkedIndex at hmem
  cases hslot : decoder.orderRefMap[msg.stockLocate]? with
  | none =>
      rw [hslot] at hmem
      cases hmem
  | some slot =>
      rw [hslot, Option.elim_some] at hmem
      split at hmem
      case isTrue => cases hmem
      case isFalse hsize =>
          obtain rfl := List.mem_singleton.mp hmem
          exact UInt64.not_le.mp hsize

/-- Growing makes room for every reference but the largest. -/
theorem grownIndex_inside_iff {ref : OrderId} :
    (decoder.grownIndex msg ref).1 < (decoder.grownIndex msg ref).2 ↔ ref ≠ orderIdInvalid := by
  constructor
  · rintro hlt rfl
    have hset := set?_reserve_invalid (decoder.orderRefMap[msg.stockLocate]?.getD default) {}
    obtain ⟨slot, hsome⟩ := OrderVector.set?_of_lt hlt {}
    cases hset.symm.trans hsome
  · exact fun hvalid => (OrderVector.reserve_spec _ hvalid).1

/-- **The indices of a message** are inside the vectors exactly if it is in range. -/
theorem indices_inside_iff (decoder : ItchDecoder) (type : MsgType) (msg : Payload) :
    (∀ index ∈ decoder.indices msg type, index.1 < index.2) ↔ decoder.InRange msg type := by
  cases type with
  | systemEvent => exact iff_of_true (by simp [indices]) trivial
  | addOrder | addOrderMpid =>
      simp only [indices, List.forall_mem_singleton, grownIndex_inside_iff, InRange]
  | orderExecuted | orderCancel => exact iff_of_true checkedIndex_inside trivial
  | orderDelete =>
      refine iff_of_true (fun index hmem => ?_) trivial
      simp only [indices] at hmem
      split at hmem
      case isTrue => cases hmem
      case isFalse => exact checkedIndex_inside index hmem
  | orderReplace =>
      simp only [indices, List.forall_mem_append, InRange]
      rw [and_iff_right checkedIndex_inside]
      cases decoder.live? msg.stockLocate msg.ref with
      | none => simp
      | some state => simp [grownIndex_inside_iff]

theorem decodeAdd_isSome_iff (type : UpdateType) (htype : type = .add ∨ type = .addMpid) :
    (decodeAdd type decoder msg out).isSome = true ↔ msg.ref ≠ orderIdInvalid := by
  constructor
  · intro hsome hinvalid
    rw [decodeAdd_of_invalid type hinvalid] at hsome
    cases hsome
  · intro hvalid
    obtain ⟨result, hdecode, -⟩ := decodeAdd_touches type htype hvalid
    rw [hdecode]
    rfl

theorem decodeOrderReplace_isSome_iff : (decoder.decodeOrderReplace msg out).isSome = true ↔
    decoder.InRange msg .orderReplace ∧ ¬ decoder.Dangles msg .orderReplace := by
  cases hlive : decoder.live? msg.stockLocate msg.ref with
  | none =>
      rw [decodeOrderReplace_of_dead decoder out hlive]
      simp [InRange, Dangles, hlive]
  | some state =>
      simp only [InRange, Dangles, hlive, ne_eq, reduceCtorEq, not_false_eq_true, forall_const,
        Option.isSome_some, true_and]
      constructor
      · intro hsome
        constructor
        · intro hinvalid
          rw [decodeOrderReplace_of_invalid hlive out hinvalid] at hsome
          cases hsome
        · intro hmoved
          rw [decodeOrderReplace_of_moved hlive out hmoved] at hsome
          cases hsome
      · rintro ⟨hvalid, hstays⟩
        obtain ⟨result, hdecode, -⟩ := decodeOrderReplace_replaces hlive out hvalid hstays
        rw [hdecode]
        rfl

/-- The other messages check the size before they reach an entry. -/
theorem decodeMessage_isSome (hreplace : type ≠ .orderReplace)
    (hadd : ¬ (type = .addOrder ∨ type = .addOrderMpid)) :
    (decoder.decodeMessage type msg out).isSome = true := by
  obtain ⟨result, hdecode, -⟩ : ∃ result, decoder.decodeMessage type msg out = some result ∧ _ :=
    decodeMessage_touches hreplace fun h => absurd h hadd
  rw [hdecode]
  rfl

/-- **A message** is defined exactly if it is in range and does not write through a dangling
reference. -/
theorem decodeMessage_isSome_iff (decoder : ItchDecoder) (type : MsgType) (msg : Payload)
    (out : MarketUpdate) :
    (decoder.decodeMessage type msg out).isSome = true
      ↔ decoder.InRange msg type ∧ ¬ decoder.Dangles msg type := by
  cases type with
  | addOrder => exact (decodeAdd_isSome_iff .add (Or.inl rfl)).trans (and_iff_left id).symm
  | addOrderMpid => exact (decodeAdd_isSome_iff .addMpid (Or.inr rfl)).trans (and_iff_left id).symm
  | orderReplace => exact decodeOrderReplace_isSome_iff
  | systemEvent | orderExecuted | orderCancel | orderDelete =>
      exact iff_of_true (decodeMessage_isSome (by simp) (by simp)) ⟨trivial, id⟩

def Call.indices (decoder : ItchDecoder) (c : Call) : List (OrderId × UInt64) :=
  c.message?.elim [] fun message => decoder.indices message.2 message.1

/-- **A call** never reads outside the wire; its indices into the vectors are inside them exactly if its
message, if it has a complete one, is in range; and it is defined exactly if they are and it does not
write through a dangling reference. -/
theorem call_safe_iff (decoder : ItchDecoder) (c : Call) :
    (∀ read ∈ c.reads, read.1 + read.2 ≤ c.wire.length)
      ∧ ((∀ index ∈ c.indices decoder, index.1 < index.2)
        ↔ ∀ message ∈ c.message?, decoder.InRange message.2 message.1)
      ∧ ((decoder.call c).isSome = true ↔ (∀ index ∈ c.indices decoder, index.1 < index.2)
        ∧ ∀ message ∈ c.message?, ¬ decoder.Dangles message.2 message.1) := by
  have hinside : (∀ index ∈ c.indices decoder, index.1 < index.2)
      ↔ ∀ message ∈ c.message?, decoder.InRange message.2 message.1 := by
    unfold Call.indices
    cases c.message? with
    | none => simp
    | some message => simpa using indices_inside_iff decoder message.1 message.2
  refine ⟨reads_inside c, hinside, ?_⟩
  rw [hinside]
  rcases decoder.call_cases c with
    ⟨type, msg, out, base, hmessage, htable, -, hcall⟩ | ⟨hmessage, decoder', hcall, -⟩
  · have hsame : (base.InRange msg type ↔ decoder.InRange msg type)
        ∧ (base.Dangles msg type ↔ decoder.Dangles msg type) := by
      have hlive : base.live? msg.stockLocate msg.ref = decoder.live? msg.stockLocate msg.ref := by
        rw [live?, htable, live?]
      have hmoved : base.Reallocates msg ↔ decoder.Reallocates msg := by
        rw [Reallocates, htable, Reallocates]
      constructor <;> cases type <;> simp only [InRange, Dangles, hlive, hmoved]
    rw [hcall, Option.isSome_map, decodeMessage_isSome_iff, hsame.1, hsame.2, hmessage]
    simp
  · rw [hcall, hmessage]
    exact iff_of_true rfl (by simp)

/-- An add with the largest reference. -/
def largestRefCall : Call :=
  .decode ([0, 0, 0, 0, 0, 0, 0, 1, 65, 0, 7] ++ List.replicate 8 0 ++
    List.replicate 8 255 ++ [66, 0, 0, 0, 10] ++ List.replicate 8 0 ++ [0, 0, 0, 100]) {}

/-- The vector is empty when it is indexed. -/
theorem largestRef_out_of_range :
    largestRefCall.indices {} = [(orderIdInvalid, 0)] ∧ (ItchDecoder.call {} largestRefCall).isNone = true := by
  decide +kernel

end ItchDecoder

end AlphaTrader
