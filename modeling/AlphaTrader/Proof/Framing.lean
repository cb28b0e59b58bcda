import AlphaTrader.Library.Run
import AlphaTrader.Proof.FeedParsing

/-!
# Framing rests on the order table

A complete frame of a known type may still be turned down: a system event always, an execution, a
cancel, a delete or a replace of an order that is not live. The consumer cannot tell this from garbage
and skips one byte, and from there on it reads the bytes of the frame as if a frame began inside it.
Only frames are read exactly as long as every frame is accepted.
-/

namespace AlphaTrader

namespace ItchDecoder

variable {decoder : ItchDecoder} {msg : Payload} {out : MarketUpdate} {type : MsgType}

/-! ### Accepted messages -/

/-- An add has a reference that a vector can hold, a delete is a marker or names a live order, and
every other message names a live order. The new reference of a replace has its place in the vector
without a reallocation. There is no acceptable system event. -/
def Acceptable (decoder : ItchDecoder) (msg : Payload) : MsgType → Prop
  | .systemEvent => False
  | .addOrder | .addOrderMpid => msg.ref ≠ orderIdInvalid
  | .orderExecuted | .orderCancel => (decoder.live? msg.stockLocate msg.ref).isSome = true
  | .orderDelete => (marker? msg.locate).isSome = true
      ∨ (decoder.live? msg.stockLocate msg.ref).isSome = true
  | .orderReplace => (decoder.live? msg.stockLocate msg.ref).isSome = true
      ∧ msg.newRef ≠ orderIdInvalid ∧ ¬ decoder.Reallocates msg

instance (decoder : ItchDecoder) (msg : Payload) : ∀ type, Decidable (decoder.Acceptable msg type)
  | .systemEvent => isFalse id
  | .addOrder | .addOrderMpid => inferInstanceAs (Decidable (_ ≠ _))
  | .orderExecuted | .orderCancel => inferInstanceAs (Decidable (_ = true))
  | .orderDelete => inferInstanceAs (Decidable (_ ∨ _))
  | .orderReplace => inferInstanceAs (Decidable (_ ∧ _))

theorem acceptable_congr {decoder' : ItchDecoder} (htable : decoder'.orderRefMap = decoder.orderRefMap) :
    decoder'.Acceptable msg type ↔ decoder.Acceptable msg type := by
  have hlive : decoder'.live? msg.stockLocate msg.ref = decoder.live? msg.stockLocate msg.ref := by
    rw [live?, htable, live?]
  have hmoved : decoder'.Reallocates msg ↔ decoder.Reallocates msg := by
    rw [Reallocates, htable, Reallocates]
  cases type <;> simp only [Acceptable, hlive, hmoved]

theorem decodeOrderReplace_accepted_iff :
    (∃ result, decoder.decodeOrderReplace msg out = some result ∧ result.accepted = true)
      ↔ decoder.Acceptable msg .orderReplace := by
  constructor
  · rintro ⟨result, hdecode, haccepted⟩
    obtain ⟨-, hrejected, -⟩ | ⟨state, hlive, hvalid, hstays, -⟩ := decodeOrderReplace_cases hdecode
    · rw [haccepted] at hrejected
      cases hrejected
    · exact ⟨by rw [hlive]; rfl, hvalid, hstays⟩
  · rintro ⟨hlive, hvalid, hstays⟩
    obtain ⟨state, hstate⟩ := Option.isSome_iff_exists.mp hlive
    obtain ⟨result, hdecode, hreplaces⟩ := decodeOrderReplace_replaces hstate out hvalid hstays
    exact ⟨result, hdecode, hreplaces.accepted⟩

/-- **A message** is accepted exactly if it is acceptable. -/
theorem decodeMessage_accepted_iff :
    (∃ result, decoder.decodeMessage type msg out = some result ∧ result.accepted = true)
      ↔ decoder.Acceptable msg type := by
  by_cases hreplace : type = .orderReplace
  · subst hreplace
    exact decodeOrderReplace_accepted_iff
  by_cases hinvalid : (type = .addOrder ∨ type = .addOrderMpid) ∧ msg.ref = orderIdInvalid
  · -- the add writes past the end of the vector
    obtain ⟨hadd, hinvalid⟩ := hinvalid
    have hstuck : decoder.decodeMessage type msg out = none := by
      rcases hadd with rfl | rfl <;> exact decodeAdd_of_invalid _ hinvalid
    have hunacceptable : ¬ decoder.Acceptable msg type := by
      rcases hadd with rfl | rfl <;> exact fun h => h hinvalid
    simp [hstuck, hunacceptable]
  · have hvalid : type = .addOrder ∨ type = .addOrderMpid → msg.ref ≠ orderIdInvalid :=
      fun hadd href => hinvalid ⟨hadd, href⟩
    obtain ⟨result, hdecode, htouches⟩ : ∃ result, decoder.decodeMessage type msg out = some result
        ∧ Touches decoder msg result (touch type msg out (decoder.live? msg.stockLocate msg.ref)) :=
      decodeMessage_touches hreplace hvalid
    rw [hdecode]
    simp only [Option.some.injEq, exists_eq_left', htouches.accepted]
    cases type with
    | systemEvent => simp [touch, Acceptable]
    | addOrder => exact iff_of_true rfl (hvalid (Or.inl rfl))
    | addOrderMpid => exact iff_of_true rfl (hvalid (Or.inr rfl))
    | orderExecuted | orderCancel => rw [touch, Option.isSome_map, Acceptable]
    | orderDelete =>
        simp only [touch, Acceptable]
        split
        case h_1 hmarker => simp [hmarker]
        case h_2 hmarker => simp [hmarker]
    | orderReplace => exact absurd rfl hreplace

end ItchDecoder

/-! ### Frames and tokens -/

/-- A complete frame of the feed. -/
structure FeedFrame where
  bytes : List UInt8
  type : MsgType
  typed : MsgType.ofByte? (bytes.getD 8 0) = some type
  sized : bytes.length = 8 + type.payloadSize

namespace FeedFrame

def msg (frame : FeedFrame) : Payload := frame.bytes.drop 8

def seqNum (frame : FeedFrame) : SeqNum := ItchDecoder.seqNumOf .feed frame.bytes

theorem complete (frame : FeedFrame) : ItchDecoder.Complete .feed frame.bytes frame.type :=
  ⟨frame.typed, Nat.le_of_eq frame.sized.symm⟩

theorem not_short (frame : FeedFrame) : ¬ frame.bytes.length < 8 + 1 := by
  have hpos := ItchDecoder.payloadSize_pos frame.type
  have hsized := frame.sized
  omega

end FeedFrame

namespace ItchDecoder

/-- The decoder behind a frame. -/
def after (decoder : ItchDecoder) (frame : FeedFrame) : Option ItchDecoder :=
  (decoder.decodeFrame .feed frame.bytes).map Decoded.decoder

/-- The frames decoded one by one, each alone. -/
def decodings (decoder : ItchDecoder) : List FeedFrame → List Arrival
  | [] => []
  | frame :: frames =>
      match decoder.decodeFrame .feed frame.bytes with
      | none => []
      | some result => ⟨result.update, ⟨.feed, frame.bytes⟩⟩ :: decodings result.decoder frames

/-- Every frame is acceptable when its turn comes. -/
def AllAcceptable (decoder : ItchDecoder) (frames : List FeedFrame) : Prop :=
  Run.Along after (fun decoder frame => decoder.Acceptable frame.msg frame.type) decoder frames

instance (decoder : ItchDecoder) (frames : List FeedFrame) :
    Decidable (decoder.AllAcceptable frames) :=
  inferInstanceAs (Decidable (Run.Along ..))

theorem decodeFrame_accepted_iff {decoder : ItchDecoder} {frame : FeedFrame} :
    (∃ result, decoder.decodeFrame .feed frame.bytes = some result ∧ result.accepted = true)
      ↔ decoder.Acceptable frame.msg frame.type := by
  rw [decodeFrame_eq decoder frame.complete]
  exact decodeMessage_accepted_iff.trans (acceptable_congr rfl)

theorem decodeFrame_acceptable {decoder : ItchDecoder} {frame : FeedFrame}
    (hacceptable : decoder.Acceptable frame.msg frame.type) :
    ∃ update decoder', decoder.decodeFrame .feed frame.bytes = some ⟨true, update, decoder'⟩
      ∧ decoder'.lastDecodedSize = frame.type.payloadSize ∧ update.seqNum = frame.seqNum := by
  obtain ⟨result, hframe, haccepted⟩ := decodeFrame_accepted_iff.mpr hacceptable
  rcases decodeFrame_cases hframe with ⟨hrejected, -⟩ | ⟨-, type, hcomplete, hsize, hseq, -⟩
  · rw [haccepted] at hrejected
    cases hrejected
  · obtain rfl : type = frame.type := Option.some.inj (hcomplete.1.symm.trans frame.typed)
    exact ⟨result.update, result.decoder, by rw [hframe, ← haccepted], hsize, hseq⟩

/-- A frame that is not acceptable is undefined or turned down for good. -/
theorem decodeFrame_unacceptable {decoder : ItchDecoder} {frame : FeedFrame}
    (hunacceptable : ¬ decoder.Acceptable frame.msg frame.type) :
    decoder.decodeFrame .feed frame.bytes = none
      ∨ ∃ update, decoder.decodeFrame .feed frame.bytes =
        some ⟨false, update, decoder.handling .feed frame.type⟩ := by
  cases hdecode : decoder.decodeFrame .feed frame.bytes with
  | none => exact Or.inl rfl
  | some result =>
      have hrejected : result.accepted = false := by
        by_contra haccepted
        exact hunacceptable (decodeFrame_accepted_iff.mp ⟨result, hdecode, by simpa using haccepted⟩)
      rw [decodeFrame_eq decoder frame.complete] at hdecode
      cases decodeMessage_confined hdecode with
      | written update slot count => cases hrejected
      | unchanged accepted update =>
          obtain rfl : accepted = false := hrejected
          exact Or.inr ⟨update, rfl⟩

theorem map_bytes_decodings {decoder : ItchDecoder} {frames : List FeedFrame}
    (hall : decoder.AllAcceptable frames) :
    (decoder.decodings frames).map (fun arrival => arrival.frame.bytes) =
      frames.map FeedFrame.bytes := by
  induction frames generalizing decoder with
  | nil => rfl
  | cons frame frames ih =>
      obtain ⟨hacceptable, hrest⟩ := hall
      obtain ⟨update, decoder', hdecode, -⟩ := decodeFrame_acceptable hacceptable
      have hafter : decoder.after frame = some decoder' := by rw [after, hdecode, Option.map_some]
      simp only [decodings, hdecode, List.map_cons]
      rw [ih (hrest decoder' hafter)]

end ItchDecoder

namespace MarketDataConsumer

variable {c : MarketDataConsumer}

theorem offer_frame {frame : FeedFrame} (hacceptable : c.decoder.Acceptable frame.msg frame.type)
    (more : List UInt8) :
    ∃ update decoder', c.decoder.decodeFrame .feed frame.bytes = some ⟨true, update, decoder'⟩
      ∧ update.seqNum = frame.seqNum
      ∧ 8 + decoder'.lastDecodedSize = frame.bytes.length
      ∧ c.offer .feed (frame.bytes ++ more) =
        some ({ c with decoder := decoder' }.record ⟨.feed, frame.bytes⟩,
          some ⟨update, ⟨.feed, frame.bytes⟩⟩) := by
  obtain ⟨update, decoder', hdecode, hsize, hseq⟩ := ItchDecoder.decodeFrame_acceptable hacceptable
  have hlength : 8 + decoder'.lastDecodedSize = frame.bytes.length := by rw [hsize, frame.sized]
  have htake : frame.bytes.take (FrameKind.feed.headerSize + decoder'.lastDecodedSize) =
      frame.bytes := List.take_of_length_le (Nat.le_of_eq hlength.symm)
  have hoffer : c.offer .feed frame.bytes =
      some ({ c with decoder := decoder' }.record ⟨.feed, frame.bytes⟩,
        some ⟨update, ⟨.feed, frame.bytes⟩⟩) := by
    simp only [offer, hdecode, htake, if_true]
  refine ⟨update, decoder', hdecode, hseq, hlength, ?_⟩
  rw [offer_append frame.not_short, hoffer]
  intro c' hrejected
  rw [hoffer] at hrejected
  cases hrejected

theorem offer_unacceptable {frame : FeedFrame}
    (hunacceptable : ¬ c.decoder.Acceptable frame.msg frame.type) (more : List UInt8) :
    c.offer .feed (frame.bytes ++ more) = none
      ∨ c.offer .feed (frame.bytes ++ more) =
        some ({ c with decoder := c.decoder.handling .feed frame.type }, none) := by
  have happend := ItchDecoder.decodeFrame_append_of_complete c.decoder frame.complete more
  rcases ItchDecoder.decodeFrame_unacceptable hunacceptable with hstuck | ⟨update, hrejected⟩
  · exact Or.inl (by rw [offer, happend, hstuck])
  · exact Or.inr (by simp [offer, happend, hrejected])

/-! ### The feed -/

/-- What stands on the feed: a token, or a frame that does not start like one. -/
inductive FeedItem where
  | token
  | frame (content : FeedFrame) (unlike : registrationMagic.isPrefixOf content.bytes = false)

namespace FeedItem

def bytes : FeedItem → List UInt8
  | token => registrationMagic
  | frame content _ => content.bytes

def frame? : FeedItem → Option FeedFrame
  | token => none
  | frame content _ => some content

theorem bytes_length (item : FeedItem) : registrationMagic.length ≤ item.bytes.length := by
  cases item with
  | token => exact Nat.le_refl _
  | frame content _ =>
      have hshort := content.not_short
      simp only [bytes, registrationMagic, List.length_cons, List.length_nil]
      omega

end FeedItem

def feedBytes (items : List FeedItem) : List UInt8 := items.flatMap FeedItem.bytes

def feedFrames (items : List FeedItem) : List FeedFrame := items.filterMap FeedItem.frame?

/-- The bytes that stay in the buffer: a token at the end is shorter than a header. -/
def leftover (items : List FeedItem) : List UInt8 :=
  match items.getLast? with
  | some .token => registrationMagic
  | _ => []

/-- The consumer reads the frames and nothing else. -/
structure Framed (c : MarketDataConsumer) (items : List FeedItem) : Prop where
  finishes : ∃ c', Incremental.parse recvPass c (feedBytes items) = some (c', leftover items)
  decoded : Incremental.emits recvPass handed? c (feedBytes items) =
    c.decoder.decodings (feedFrames items)
  boundaries : ∀ state ∈ Incremental.states recvPass c (feedBytes items),
    ∃ rest, rest <:+ items ∧ state.2 = feedBytes rest

theorem framed_of_short {items : List FeedItem} (hshort : (feedBytes items).length < 8 + 1)
    (hleft : leftover items = feedBytes items) (hframes : feedFrames items = []) :
    Framed c items := by
  have hpass : recvPass (c, feedBytes items) = some (.inr (c, feedBytes items)) := if_pos hshort
  have hstop : ∀ state, recvPass (c, feedBytes items) ≠ some (.inl state) := by simp [hpass]
  refine ⟨⟨c, ?_⟩, ?_, ?_⟩
  · rw [hleft]
    exact Incremental.parse_of_wait hpass
  · rw [Incremental.emits_of_stop _ hstop, handed?, if_pos (Or.inl hshort), hframes]
    rfl
  · intro state hmem
    rw [Incremental.states_of_stop hstop, List.mem_singleton] at hmem
    exact ⟨items, List.suffix_rfl, by rw [hmem]⟩

theorem Framed.cons {item : FeedItem} {items : List FeedItem} {c' : MarketDataConsumer}
    (h : Framed c' items)
    (hpass : recvPass (c, feedBytes (item :: items)) = some (.inl (c', feedBytes items)))
    (hleft : leftover (item :: items) = leftover items)
    (hdecoded : (handed? (c, feedBytes (item :: items))).toList
        ++ c'.decoder.decodings (feedFrames items) =
      c.decoder.decodings (feedFrames (item :: items))) : Framed c (item :: items) := by
  obtain ⟨⟨done, hdone⟩, hrest, hboundaries⟩ := h
  refine ⟨⟨done, ?_⟩, ?_, ?_⟩
  · rw [Incremental.parse_of_go recvPass_stable hpass, hleft, hdone]
  · rw [Incremental.emits_of_go recvPass_stable _ hpass, hrest, hdecoded]
  · intro state hmem
    rw [Incremental.states_of_go recvPass_stable hpass] at hmem
    rcases List.mem_cons.mp hmem with rfl | hmem
    · exact ⟨item :: items, List.suffix_rfl, rfl⟩
    · obtain ⟨rest, hsuffix, hbytes⟩ := hboundaries state hmem
      exact ⟨rest, hsuffix.trans (List.suffix_cons item items), hbytes⟩

theorem decoder_processIncremental (c : MarketDataConsumer) (arrival : Arrival) :
    (c.processIncremental arrival).decoder = c.decoder := by
  unfold processIncremental detectGap
  dsimp only
  split_ifs <;> rfl

theorem recvPass_token (items : List FeedItem) (hne : items ≠ []) :
    recvPass (c, feedBytes (.token :: items)) = some (.inl (c, feedBytes items)) := by
  obtain ⟨item, rest, rfl⟩ := List.exists_cons_of_ne_nil hne
  have hlength : ¬ (feedBytes (.token :: item :: rest)).length < 8 + 1 := by
    have hitem := item.bytes_length
    simp only [feedBytes, List.flatMap_cons, List.length_append, FeedItem.bytes, registrationMagic,
      List.length_cons, List.length_nil] at hitem ⊢
    omega
  have hmagic : registrationMagic.isPrefixOf (feedBytes (.token :: item :: rest)) = true := by
    rw [List.isPrefixOf_iff_prefix]
    exact List.prefix_append _ _
  unfold recvPass
  dsimp only
  rw [if_neg hlength, if_pos hmagic]
  rfl

theorem framed_token (items : List FeedItem) (hne : items ≠ []) (h : Framed c items) :
    Framed c (.token :: items) := by
  apply h.cons (recvPass_token items hne)
  · obtain ⟨item, rest, rfl⟩ := List.exists_cons_of_ne_nil hne
    simp only [leftover, List.getLast?_cons_cons]
  · have hmagic : registrationMagic.isPrefixOf (feedBytes (.token :: items)) = true := by
      rw [List.isPrefixOf_iff_prefix]
      exact List.prefix_append _ _
    rw [handed?, if_pos (Or.inr hmagic)]
    rfl

theorem recvPass_frame {frame : FeedFrame} (unlike : registrationMagic.isPrefixOf frame.bytes = false)
    (hacceptable : c.decoder.Acceptable frame.msg frame.type) (items : List FeedItem) :
    ∃ update decoder', c.decoder.decodeFrame .feed frame.bytes = some ⟨true, update, decoder'⟩
      ∧ recvPass (c, feedBytes (.frame frame unlike :: items)) =
        some (.inl (({ c with decoder := decoder' }.record ⟨.feed, frame.bytes⟩).processIncremental
          ⟨update, ⟨.feed, frame.bytes⟩⟩, feedBytes items))
      ∧ handed? (c, feedBytes (.frame frame unlike :: items)) = some ⟨update, ⟨.feed, frame.bytes⟩⟩ := by
  obtain ⟨update, decoder', hdecode, -, hsize, hoffer⟩ := offer_frame hacceptable (feedBytes items)
  have hlength : ¬ (frame.bytes ++ feedBytes items).length < 8 + 1 := by
    have hshort := frame.not_short
    simp only [List.length_append]
    omega
  have hmagic : ¬ registrationMagic.isPrefixOf (frame.bytes ++ feedBytes items) = true := by
    rw [isPrefixOf_append frame.not_short, unlike]
    exact Bool.false_ne_true
  refine ⟨update, decoder', hdecode, ?_, ?_⟩
  · change recvPass (c, frame.bytes ++ feedBytes items) = _
    unfold recvPass
    dsimp only
    rw [if_neg hlength, if_neg hmagic, hoffer]
    simp only [record, hsize, List.drop_left]
  · change handed? (c, frame.bytes ++ feedBytes items) = _
    rw [handed?, if_neg (not_or.mpr ⟨hlength, hmagic⟩), accepted?, hoffer]
    rfl

theorem framed_frame {frame : FeedFrame} {items : List FeedItem}
    (unlike : registrationMagic.isPrefixOf frame.bytes = false)
    (hacceptable : c.decoder.Acceptable frame.msg frame.type)
    (h : ∀ c' : MarketDataConsumer, c.decoder.after frame = some c'.decoder → Framed c' items) :
    Framed c (.frame frame unlike :: items) := by
  obtain ⟨update, decoder', hdecode, hpass, hhanded⟩ := recvPass_frame unlike hacceptable items
  refine (h _ ?_).cons hpass ?_ ?_
  · rw [ItchDecoder.after, hdecode, Option.map_some, decoder_processIncremental, record]
  · cases items with
    | nil => rfl
    | cons item rest => simp only [leftover, List.getLast?_cons_cons]
  · change _ = c.decoder.decodings (frame :: feedFrames items)
    rw [hhanded, decoder_processIncremental, ItchDecoder.decodings, hdecode]
    rfl

/-- **Every feed** of acceptable frames and tokens is read frame by frame. -/
theorem framed_of_acceptable (items : List FeedItem) (c : MarketDataConsumer)
    (hall : c.decoder.AllAcceptable (feedFrames items)) : Framed c items := by
  induction items generalizing c with
  | nil => exact framed_of_short (by decide) rfl rfl
  | cons item items ih =>
      cases item with
      | token =>
          by_cases hne : items = []
          · subst hne
            exact framed_of_short (by decide) rfl rfl
          · exact framed_token items hne (ih c hall)
      | frame frame unlike =>
          obtain ⟨hacceptable, hrest⟩ := hall
          exact framed_frame unlike hacceptable fun c' hafter => ih c' (hrest _ hafter)

/-! ### Only acceptable frames keep the framing -/

theorem length_feedBytes_le {rest items : List FeedItem} (hsuffix : rest <:+ items) :
    (feedBytes rest).length ≤ (feedBytes items).length := by
  obtain ⟨front, rfl⟩ := hsuffix
  rw [feedBytes, feedBytes, List.flatMap_append, List.length_append]
  exact Nat.le_add_left ..

/-- One byte into a frame there is no boundary. -/
theorem drop_ne_feedBytes {frame : FeedFrame} {unlike : registrationMagic.isPrefixOf frame.bytes = false}
    {items all rest : List FeedItem} (hitems : .frame frame unlike :: items <:+ all)
    (hrest : rest <:+ all) : (frame.bytes ++ feedBytes items).drop 1 ≠ feedBytes rest := by
  intro heq
  have hlength := congrArg List.length heq
  have hshort := frame.not_short
  rw [List.length_drop, List.length_append] at hlength
  rcases List.suffix_or_suffix_of_suffix hitems hrest with hlonger | hshorter
  · have hle := length_feedBytes_le hlonger
    have hsum : (feedBytes (.frame frame unlike :: items)).length =
        frame.bytes.length + (feedBytes items).length := List.length_append
    omega
  · rcases List.suffix_cons_iff.mp hshorter with rfl | hsuffix
    · have hsum : (feedBytes (.frame frame unlike :: items)).length =
          frame.bytes.length + (feedBytes items).length := List.length_append
      omega
    · have hle := length_feedBytes_le hsuffix
      omega

theorem recvPass_unacceptable {frame : FeedFrame} (unlike : registrationMagic.isPrefixOf frame.bytes = false)
    (hunacceptable : ¬ c.decoder.Acceptable frame.msg frame.type) (more : List UInt8) :
    recvPass (c, frame.bytes ++ more) = none
      ∨ ∃ c', recvPass (c, frame.bytes ++ more) = some (.inl (c', (frame.bytes ++ more).drop 1)) := by
  have hlength : ¬ (frame.bytes ++ more).length < 8 + 1 := by
    have hshort := frame.not_short
    simp only [List.length_append]
    omega
  have hmagic : ¬ registrationMagic.isPrefixOf (frame.bytes ++ more) = true := by
    rw [isPrefixOf_append frame.not_short, unlike]
    exact Bool.false_ne_true
  unfold recvPass
  dsimp only
  rw [if_neg hlength, if_neg hmagic]
  rcases offer_unacceptable hunacceptable more with hstuck | hrejected
  · exact Or.inl (by rw [hstuck])
  · rw [hrejected]
    exact Or.inr ⟨_, if_neg Bool.false_ne_true⟩

/-- If the passes over a part of a feed come to an end and stand at boundaries, its frames are
acceptable. -/
theorem acceptable_of_boundaries {all : List FeedItem} (items : List FeedItem) (c : MarketDataConsumer)
    (hitems : items <:+ all)
    (hfinishes : (Incremental.parse recvPass c (feedBytes items)).isSome = true)
    (hboundaries : ∀ state ∈ Incremental.states recvPass c (feedBytes items),
      ∃ rest, rest <:+ all ∧ state.2 = feedBytes rest) :
    c.decoder.AllAcceptable (feedFrames items) := by
  induction items generalizing c with
  | nil => trivial
  | cons item items ih =>
      have hrest : items <:+ all := (List.suffix_cons item items).trans hitems
      -- a pass to the next boundary leaves the rest of the items
      have hnext : ∀ {c'}, recvPass (c, feedBytes (item :: items)) = some (.inl (c', feedBytes items)) →
          c'.decoder.AllAcceptable (feedFrames items) := by
        intro c' hpass
        rw [Incremental.parse_of_go recvPass_stable hpass] at hfinishes
        rw [Incremental.states_of_go recvPass_stable hpass] at hboundaries
        exact ih c' hrest hfinishes fun state hmem => hboundaries state (List.mem_cons_of_mem _ hmem)
      cases item with
      | token =>
          by_cases hne : items = []
          · subst hne
            trivial
          · exact hnext (recvPass_token items hne)
      | frame frame unlike =>
          by_cases hacceptable : c.decoder.Acceptable frame.msg frame.type
          · obtain ⟨update, decoder', hdecode, hpass, -⟩ := recvPass_frame unlike hacceptable items
            refine ⟨hacceptable, fun decoder'' hafter => ?_⟩
            rw [ItchDecoder.after, hdecode, Option.map_some] at hafter
            obtain rfl := Option.some.inj hafter
            have hall := hnext hpass
            rwa [decoder_processIncremental] at hall
          · rcases recvPass_unacceptable unlike hacceptable (feedBytes items) with hstuck | ⟨c', hpass⟩
            · have hparse : Incremental.parse recvPass c (feedBytes (.frame frame unlike :: items)) = none :=
                Incremental.parse_of_stuck hstuck
              rw [hparse] at hfinishes
              cases hfinishes
            · have hmem : (c', (frame.bytes ++ feedBytes items).drop 1)
                  ∈ Incremental.states recvPass c (frame.bytes ++ feedBytes items) := by
                rw [Incremental.states_of_go recvPass_stable hpass]
                exact List.mem_cons_of_mem _ Incremental.mem_states_self
              obtain ⟨rest, hsuffix, hbytes⟩ := hboundaries _ hmem
              exact absurd hbytes (drop_ne_feedBytes hitems hsuffix)

/-- **Framing is kept** exactly on a feed whose frames are all acceptable: the bytes are read at frame
boundaries only, every frame is handed on as it decodes alone, and no byte of a frame is left. -/
theorem framing_kept_iff (c : MarketDataConsumer) (items : List FeedItem) (hfresh : c.inboundData = []) :
    ((∃ c', c.step (.datagram (feedBytes items)) = some c' ∧ c'.inboundData = leftover items)
      ∧ c.handed (feedBytes items) = c.decoder.decodings (feedFrames items)
      ∧ (c.handed (feedBytes items)).map (fun arrival => arrival.frame.bytes) =
        (feedFrames items).map FeedFrame.bytes
      ∧ ∀ state ∈ Incremental.states recvPass { c with inboundData := feedBytes items }
          (feedBytes items), ∃ rest, rest <:+ items ∧ state.2 = feedBytes rest)
    ↔ c.decoder.AllAcceptable (feedFrames items) := by
  constructor
  · rintro ⟨⟨c', hstep, -⟩, -, -, hboundaries⟩
    have hparse : (c.stow (c.inboundData ++ feedBytes items)).recvCallback = some c' := hstep
    rw [recvCallback_eq, hfresh] at hparse
    obtain ⟨done, hdone, -⟩ := Option.map_eq_some_iff.mp hparse
    have hfinishes : Incremental.parse recvPass (c.stow (feedBytes items)) (feedBytes items) = some done :=
      hdone
    exact acceptable_of_boundaries items (c.stow (feedBytes items)) List.suffix_rfl
      (by rw [hfinishes]; rfl) hboundaries
  · intro hall
    have hframed := framed_of_acceptable items c hall
    have hstowed := framed_of_acceptable items (c.stow (feedBytes items)) hall
    have hhanded : c.handed (feedBytes items) = c.decoder.decodings (feedFrames items) := by
      rw [handed_eq, hfresh, List.nil_append, hframed.decoded]
    refine ⟨?_, hhanded, ?_, hstowed.boundaries⟩
    · obtain ⟨c', hparse⟩ := hframed.finishes
      refine ⟨c'.stow (leftover items), ?_, rfl⟩
      rw [step_datagram, hfresh, List.nil_append, hparse, Option.map_some]
    · rw [hhanded, ItchDecoder.map_bytes_decodings hall]

def addFrame : FeedFrame := ⟨feedFrame 1 (addMsg 5 10), .addOrder, by decide, by decide⟩

def executeFrame : FeedFrame := ⟨feedFrame 2 (executeMsg 5 4), .orderExecuted, by decide, by decide⟩

/-- An order, its execution, and tokens between and behind them. -/
def mixedFeed : List FeedItem :=
  [.frame addFrame (by decide), .token, .frame executeFrame (by decide), .token]

theorem framing_kept_iff_mixedFeed :
    start.decoder.AllAcceptable (feedFrames mixedFeed) ∧ leftover mixedFeed = registrationMagic
      ∧ (∃ c', start.step (.datagram (feedBytes mixedFeed)) = some c'
          ∧ c'.inboundData = leftover mixedFeed)
      ∧ start.handed (feedBytes mixedFeed) = start.decoder.decodings (feedFrames mixedFeed)
      ∧ (start.handed (feedBytes mixedFeed)).map (fun arrival => arrival.frame.bytes) =
        (feedFrames mixedFeed).map FeedFrame.bytes
      ∧ ∀ state ∈ Incremental.states recvPass { start with inboundData := feedBytes mixedFeed }
          (feedBytes mixedFeed), ∃ rest, rest <:+ mixedFeed ∧ state.2 = feedBytes rest := by
  have hall : start.decoder.AllAcceptable (feedFrames mixedFeed) := by decide +kernel
  exact ⟨hall, rfl, (framing_kept_iff start mixedFeed rfl).mpr hall⟩

/-- An execution of an order that is not live, with the head of a delete in its timestamp. -/
def untrackedFrame : FeedFrame where
  bytes := feedFrame 1
    ([69, 0, 7, 0, 0, 68, 0xCC, 0xCC] ++ List.replicate 10 0 ++ [9, 0, 0, 0, 4] ++ List.replicate 8 0)
  type := .orderExecuted
  typed := by decide
  sized := by decide

/-- The frame is turned down, and behind a few skipped bytes a marker is read that was never sent. -/
theorem untrackedFrame_misread :
    registrationMagic.isPrefixOf untrackedFrame.bytes = false
      ∧ (start.handed untrackedFrame.bytes).map (fun arrival => arrival.update.type) =
        [.snapshotClear]
      ∧ (∀ arrival ∈ start.handed untrackedFrame.bytes, arrival.frame.bytes ≠ untrackedFrame.bytes)
      ∧ (start.step (.datagram untrackedFrame.bytes)).any (fun c => c.inboundData.length = 7) := by
  decide +kernel

end MarketDataConsumer

end AlphaTrader
