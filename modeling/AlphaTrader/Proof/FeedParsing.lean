import AlphaTrader.Library.Incremental
import AlphaTrader.Proof.ConsumerSpec

/-!
# The feed may be cut anywhere

At each offset `recvCallback` decides between a token, a frame, a byte to skip and waiting for more.
Only waiting depends on how many bytes are there, and it leaves nothing behind that a later pass would
read. So the packets in which the bytes arrive do not matter.
-/

namespace AlphaTrader

namespace ItchDecoder

variable {decoder : ItchDecoder} {kind : FrameKind} {wire : List UInt8} {type : MsgType}

theorem complete_append (hcomplete : Complete kind wire type) (more : List UInt8) :
    Complete kind (wire ++ more) type := by
  have hpos := payloadSize_pos type
  obtain ⟨htype, hlength⟩ := hcomplete
  refine ⟨?_, by simp only [List.length_append]; omega⟩
  rw [← htype, List.getD_append _ _ _ _ (by omega)]

theorem decodeFrame_append_of_complete (decoder : ItchDecoder) (hcomplete : Complete kind wire type)
    (more : List UInt8) : decoder.decodeFrame kind (wire ++ more) = decoder.decodeFrame kind wire := by
  rw [← decodeFrame_take decoder hcomplete, ← decodeFrame_take decoder (complete_append hcomplete more),
    List.take_append_of_le_length hcomplete.2]

/-- Once the decoder has decided, more bytes change nothing. -/
theorem decodeFrame_append (hlength : ¬ wire.length < 8 + 1)
    (hdecided : ∀ result, decoder.decodeFrame .feed wire = some result → result.accepted = false →
      result.decoder.needMoreData = false) (more : List UInt8) :
    decoder.decodeFrame .feed (wire ++ more) = decoder.decodeFrame .feed wire := by
  have hlonger : ¬ (wire ++ more).length < 8 + 1 := by simp only [List.length_append]; omega
  have hbyte : (wire ++ more).getD 8 0 = wire.getD 8 0 := List.getD_append _ _ _ _ (by omega)
  cases htype : MsgType.ofByte? (wire.getD 8 0) with
  | none => simp only [decodeFrame, decode, if_neg hlength, if_neg hlonger, hbyte, htype]
  | some type =>
      by_cases hshort : wire.length < 8 + type.payloadSize
      · have hdecode : decoder.decodeFrame .feed wire =
            some ⟨false, {}, { decoder with lastDecodedSize := 0, needMoreData := true }⟩ := by
          simp only [decodeFrame, decode, if_neg hlength, htype, if_pos hshort]
        cases hdecided _ hdecode rfl
      · exact decodeFrame_append_of_complete decoder ⟨htype, Nat.le_of_not_lt hshort⟩ more

end ItchDecoder

namespace MarketDataConsumer

variable {c c' : MarketDataConsumer} {kind : FrameKind} {data rest : List UInt8} {arrival : Arrival}

/-! ### Passes -/

theorem offer_append_of_decodeFrame {more : List UInt8}
    (hdecode : c.decoder.decodeFrame kind (data ++ more) = c.decoder.decodeFrame kind data) :
    c.offer kind (data ++ more) = c.offer kind data := by
  unfold offer
  rw [hdecode]
  cases hresult : c.decoder.decodeFrame kind data with
  | none => rfl
  | some result =>
      dsimp only
      split
      case isFalse => rfl
      case isTrue haccepted =>
          rcases ItchDecoder.decodeFrame_cases hresult with ⟨hrejected, -⟩ | ⟨-, type, hcomplete, hsize, -⟩
          · rw [haccepted] at hrejected
            cases hrejected
          · rw [List.take_append_of_le_length (hsize ▸ hcomplete.2)]

theorem offer_append (hlength : ¬ data.length < 8 + 1)
    (hdecided : ∀ c', c.offer .feed data = some (c', none) → c'.decoder.needMoreData = false)
    (more : List UInt8) : c.offer .feed (data ++ more) = c.offer .feed data := by
  refine offer_append_of_decodeFrame ?_
  refine ItchDecoder.decodeFrame_append hlength (fun result hresult hrejected => ?_) more
  exact hdecided { c with decoder := result.decoder } (by simp [offer, hresult, hrejected])

theorem isPrefixOf_append (hlength : ¬ data.length < 8 + 1) (more : List UInt8) :
    registrationMagic.isPrefixOf (data ++ more) = registrationMagic.isPrefixOf data := by
  rw [Bool.eq_iff_iff, List.isPrefixOf_iff_prefix, List.isPrefixOf_iff_prefix]
  constructor
  · intro hfront
    apply List.prefix_of_prefix_length_le hfront (List.prefix_append data more)
    simp only [registrationMagic, List.length_cons, List.length_nil]
    omega
  · exact fun hfront => hfront.trans (List.prefix_append data more)

/-- A pass that does not wait is the same with more bytes behind it. -/
theorem recvPass_append (hgoes : ∀ state, recvPass (c, data) ≠ some (.inr state))
    (more : List UInt8) :
    recvPass (c, data ++ more) = (recvPass (c, data)).map
      (Sum.map (Prod.map id (· ++ more)) (Prod.map id (· ++ more))) := by
  unfold recvPass at hgoes ⊢
  dsimp only at hgoes ⊢
  by_cases hlength : data.length < 8 + 1
  · exact absurd (if_pos hlength) (hgoes _)
  have hlonger : ¬ (data ++ more).length < 8 + 1 := by simp only [List.length_append]; omega
  rw [if_neg hlength] at hgoes
  rw [if_neg hlength, if_neg hlonger, isPrefixOf_append hlength]
  by_cases hmagic : registrationMagic.isPrefixOf data = true
  · have hle : registrationMagic.length ≤ data.length := by
      simp only [registrationMagic, List.length_cons, List.length_nil]
      omega
    rw [if_pos hmagic, if_pos hmagic, List.drop_append_of_le_length hle]
    rfl
  rw [if_neg hmagic] at hgoes
  rw [if_neg hmagic, if_neg hmagic]
  have hdecided : ∀ c', c.offer .feed data = some (c', none) → c'.decoder.needMoreData = false := by
    intro c' hoffer
    rw [hoffer] at hgoes
    by_contra hmore
    exact absurd (if_pos (by simpa using hmore)) (hgoes _)
  rw [offer_append hlength hdecided]
  rcases hoffer : c.offer .feed data with _ | ⟨c', _ | arrival⟩
  case none => rfl
  case some.some =>
      have hfits : 8 + c'.decoder.lastDecodedSize ≤ data.length := (accepted_of_offer hoffer).fits
      simp only [List.drop_append_of_le_length hfits]
      rfl
  case some.none =>
      have hmore := hdecided c' hoffer
      simp only [hmore, Bool.false_eq_true, if_false,
        List.drop_append_of_le_length (show 1 ≤ data.length by omega)]
      rfl

/-- Waiting is short of bytes for a header, or for the frame that the decoder has seen the head of. -/
theorem recvPass_wait (hpass : recvPass (c, data) = some (.inr (c', rest))) :
    rest = data ∧ (data.length < 8 + 1 ∧ c' = c
      ∨ ¬ data.length < 8 + 1 ∧ ¬ registrationMagic.isPrefixOf data = true
        ∧ c.offer .feed data = some (c', none)) := by
  unfold recvPass at hpass
  dsimp only at hpass
  split at hpass
  case isTrue hlength =>
      obtain ⟨rfl, rfl⟩ := by simpa using hpass
      exact ⟨rfl, Or.inl ⟨hlength, rfl⟩⟩
  case isFalse hlength =>
      split at hpass
      case isTrue => cases hpass
      case isFalse hmagic =>
          split at hpass
          case h_1 => cases hpass
          case h_2 => cases hpass
          case h_3 hoffer =>
              split at hpass
              case isFalse => cases hpass
              case isTrue =>
                  obtain ⟨rfl, rfl⟩ := by simpa using hpass
                  exact ⟨rfl, Or.inr ⟨hlength, hmagic, hoffer⟩⟩

/-- A rejected offer leaves nothing behind that another offer would read. -/
theorem offer_of_rejected (hoffer : c.offer kind data = some (c', none)) (wire : List UInt8) :
    c'.offer kind wire = c.offer kind wire := by
  unfold offer at hoffer
  split at hoffer
  case h_1 => cases hoffer
  case h_2 result hdecode =>
      dsimp only at hoffer
      split at hoffer
      case isTrue => simp at hoffer
      case isFalse hrejected =>
          obtain rfl := by simpa using hoffer
          have hsame := ItchDecoder.decodeFrame_of_rejected hdecode (by simpa using hrejected) wire
          unfold offer
          dsimp only
          rw [hsame]

theorem recvPass_stable : Incremental.Stable recvPass where
  shrinks := recvPass_decreases
  stuck more hpass := by
    rw [recvPass_append (by simp [hpass]), hpass, Option.map_none]
  goes more hpass := by
    rw [recvPass_append (by simp [hpass]), hpass]
    rfl
  waits {c data c' rest} more hpass := by
    obtain ⟨hrest, hwait⟩ := recvPass_wait hpass
    refine ⟨hrest, ?_⟩
    rcases hwait with ⟨-, rfl⟩ | ⟨hlength, hmagic, hoffer⟩
    · rfl
    · have hlonger : ¬ (data ++ more).length < 8 + 1 := by simp only [List.length_append]; omega
      unfold recvPass
      dsimp only
      rw [if_neg hlonger, if_neg hlonger, isPrefixOf_append hlength, if_neg hmagic, if_neg hmagic,
        offer_of_rejected hoffer]

/-! ### The updates handed on -/

/-- The update that a pass hands to `processIncremental`. -/
def handed? (state : MarketDataConsumer × List UInt8) : Option Arrival :=
  if state.2.length < 8 + 1 ∨ registrationMagic.isPrefixOf state.2 then none
  else state.1.accepted? .feed state.2

/-- The updates that `recvCallback` hands to `processIncremental` when bytes arrive. -/
def handed (c : MarketDataConsumer) (bytes : List UInt8) : List Arrival :=
  Incremental.emits recvPass handed? { c with inboundData := c.inboundData ++ bytes }
    (c.inboundData ++ bytes)

theorem handed?_append (hgoes : ∀ state, recvPass (c, data) ≠ some (.inr state))
    (more : List UInt8) : handed? (c, data ++ more) = handed? (c, data) := by
  unfold recvPass at hgoes
  dsimp only at hgoes
  by_cases hlength : data.length < 8 + 1
  · exact absurd (if_pos hlength) (hgoes _)
  have hlonger : ¬ (data ++ more).length < 8 + 1 := by simp only [List.length_append]; omega
  unfold handed?
  simp only [hlength, hlonger, isPrefixOf_append hlength, false_or]
  by_cases hmagic : registrationMagic.isPrefixOf data = true
  · rw [if_pos hmagic, if_pos hmagic]
  rw [if_neg hlength, if_neg hmagic] at hgoes
  rw [if_neg hmagic, if_neg hmagic, accepted?, accepted?, offer_append hlength]
  intro c' hoffer
  rw [hoffer] at hgoes
  by_contra hmore
  exact absurd (if_pos (by simpa using hmore)) (hgoes _)

theorem handed?_stable : Incremental.StableEmit recvPass handed? where
  stuck more hpass := handed?_append (by simp [hpass]) more
  goes more hpass := handed?_append (by simp [hpass]) more
  waits {c data c' rest} more hpass := by
    rcases (recvPass_wait hpass).2 with ⟨hlength, rfl⟩ | ⟨hlength, hmagic, hoffer⟩
    · exact ⟨if_pos (Or.inl hlength), rfl⟩
    · refine ⟨?_, ?_⟩
      · rw [handed?, if_neg (not_or.mpr ⟨hlength, hmagic⟩), accepted?, hoffer, Option.bind_some]
      · unfold handed? accepted?
        dsimp only
        rw [offer_of_rejected hoffer]

/-! ### Packets -/

/-- The consumer with other unused bytes, which no pass reads. -/
def stow (bytes : List UInt8) (c : MarketDataConsumer) : MarketDataConsumer :=
  { c with inboundData := bytes }

/-- An offer writes the decoder and the history, and leaves the rest of the consumer alone. -/
theorem offer_map (f : MarketDataConsumer → MarketDataConsumer) (hdecoder : (f c).decoder = c.decoder)
    (hwrite : ∀ decoder, { f c with decoder := decoder } = f { c with decoder := decoder })
    (hrecord : ∀ c frame, (f c).record frame = f (c.record frame)) (kind : FrameKind)
    (wire : List UInt8) : (f c).offer kind wire = (c.offer kind wire).map (Prod.map f id) := by
  unfold offer
  rw [hdecoder]
  cases c.decoder.decodeFrame kind wire with
  | none => rfl
  | some result =>
      dsimp only
      rw [hwrite]
      by_cases haccepted : result.accepted = true
      · rw [if_pos haccepted, if_pos haccepted, hrecord]
        rfl
      · rw [if_neg haccepted, if_neg haccepted]
        rfl

theorem offer_stow (bytes : List UInt8) (kind : FrameKind) (wire : List UInt8) :
    (c.stow bytes).offer kind wire = (c.offer kind wire).map (Prod.map (stow bytes) id) :=
  offer_map (stow bytes) rfl (fun _ => rfl) (fun _ _ => rfl) kind wire

theorem processIncremental_stow (bytes : List UInt8) :
    (c.stow bytes).processIncremental arrival = (c.processIncremental arrival).stow bytes := by
  unfold processIncremental detectGap stow
  dsimp only
  split_ifs <;> rfl

theorem recvPass_stow (bytes : List UInt8) (state : MarketDataConsumer × List UInt8) :
    recvPass (Prod.map (stow bytes) id state) =
      (recvPass state).map (Sum.map (Prod.map (stow bytes) id) (Prod.map (stow bytes) id)) := by
  obtain ⟨c, data⟩ := state
  unfold recvPass
  dsimp only [Prod.map_apply, id]
  rw [offer_stow]
  split
  case isTrue => rfl
  case isFalse =>
      split
      case isTrue => rfl
      case isFalse =>
          match c.offer .feed data with
          | none => rfl
          | some (c', some arrival) =>
              simp only [Option.map_some, Prod.map_apply, id, processIncremental_stow]
              rfl
          | some (c', none) =>
              have hmore : (c'.stow bytes).decoder.needMoreData = c'.decoder.needMoreData := rfl
              simp only [Option.map_some, Prod.map_apply, id, hmore]
              split <;> rfl

theorem recvCallback_eq : c.recvCallback =
    (Incremental.parse recvPass c c.inboundData).map fun done => done.1.stow done.2 := by
  unfold recvCallback Incremental.parse
  split
  case h_1 hrun => rw [hrun, Option.map_none]
  case h_2 hrun => rw [hrun, Option.map_some, stow]

/-- The bytes that were stowed before the parser ran do not show in its result. -/
theorem parse_stow (bytes wire : List UInt8) :
    (Incremental.parse recvPass (c.stow bytes) wire).map (fun done => done.1.stow done.2) =
      (Incremental.parse recvPass c wire).map fun done => done.1.stow done.2 := by
  have hrun := Loop.run_map (Prod.map (stow bytes) id) (Prod.map (stow bytes) id)
    (recvPass_stow bytes) (wire.length + 1) (c, wire)
  calc (Incremental.parse recvPass (c.stow bytes) wire).map (fun done => done.1.stow done.2)
      = ((Incremental.parse recvPass c wire).map (Prod.map (stow bytes) id)).map
          fun done => done.1.stow done.2 := congrArg _ hrun
    _ = (Incremental.parse recvPass c wire).map fun done => done.1.stow done.2 := by
      rw [Option.map_map]
      rfl

theorem step_datagram (bytes : List UInt8) : c.step (.datagram bytes) =
    (Incremental.parse recvPass c (c.inboundData ++ bytes)).map fun done => done.1.stow done.2 :=
  recvCallback_eq.trans (parse_stow _ _)

theorem step_append (c : MarketDataConsumer) (data more : List UInt8) :
    c.step (.datagram (data ++ more)) =
      (c.step (.datagram data)).bind fun c' => c'.step (.datagram more) := by
  rw [step_datagram, step_datagram, ← List.append_assoc, Incremental.parse_append recvPass_stable,
    Option.map_bind, Option.bind_map]
  refine congrArg _ (funext fun done => ?_)
  rw [Function.comp_apply, Function.comp_apply, step_datagram, parse_stow]
  rfl

theorem handed?_stow (bytes : List UInt8) (state : MarketDataConsumer × List UInt8) :
    handed? (Prod.map (stow bytes) id state) = handed? state := by
  simp only [handed?, Prod.map_fst, Prod.map_snd, id, accepted?, offer_stow, Option.bind_map]
  rfl

theorem emits_stow (bytes wire : List UInt8) :
    Incremental.emits recvPass handed? (c.stow bytes) wire =
      Incremental.emits recvPass handed? c wire := by
  have hvisited := Loop.visited_map (Prod.map (stow bytes) id) (Prod.map (stow bytes) id)
    (recvPass_stow bytes) (wire.length + 1) (c, wire)
  calc Incremental.emits recvPass handed? (c.stow bytes) wire
      = ((Incremental.states recvPass c wire).map (Prod.map (stow bytes) id)).filterMap handed? :=
        congrArg (List.filterMap handed?) hvisited
    _ = Incremental.emits recvPass handed? c wire := by
      rw [List.filterMap_map]
      exact congrArg (List.filterMap · _) (funext (handed?_stow bytes))

theorem handed_eq (bytes : List UInt8) : c.handed bytes =
    Incremental.emits recvPass handed? c (c.inboundData ++ bytes) :=
  emits_stow _ _

theorem handed_append (c : MarketDataConsumer) (data more : List UInt8) :
    c.handed (data ++ more) =
      c.handed data ++ (c.step (.datagram data)).elim [] fun c' => c'.handed more := by
  rw [handed_eq, handed_eq, ← List.append_assoc,
    Incremental.emits_append recvPass_stable handed?_stable, step_datagram]
  refine congrArg _ ?_
  cases Incremental.parse recvPass c (c.inboundData ++ data) with
  | none => rfl
  | some done => exact ((handed_eq more).trans (emits_stow _ _)).symm

/-- **Packets do not matter.** However the bytes are cut, the consumer ends in the same state, with the
same orders in its decoder and the same unused bytes, and hands on the same updates. -/
theorem feed_chunks (c : MarketDataConsumer) (first : List UInt8) (chunks : List (List UInt8)) :
    (first :: chunks).foldlM (fun c chunk => c.step (.datagram chunk)) c =
        c.step (.datagram (first :: chunks).flatten)
      ∧ Incremental.emitted (fun c chunk => c.step (.datagram chunk)) handed c (first :: chunks) =
        c.handed (first :: chunks).flatten :=
  ⟨Incremental.foldlM_chunks step_append c first chunks,
    Incremental.emitted_chunks handed_append c first chunks⟩

end MarketDataConsumer

end AlphaTrader
