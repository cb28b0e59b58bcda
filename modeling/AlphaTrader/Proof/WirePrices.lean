import AlphaTrader.Proof.BookRefinement
import AlphaTrader.Proof.DecoderAgreement
import AlphaTrader.Proof.DecoderSafety

/-!
# The top of the book and the prices on the wire

A price is an unsigned number on the wire and a signed one in the book, whose smallest value stands for
no price. Up to `2 ^ 31` the two readings are the same, and the top of the book is the best price that
was sent. From there on a price turns negative: it is the worst bid and the best ask.
-/

namespace AlphaTrader

open ItchDecoder

/-! ### Signed readings -/

theorem beNat_lt (bytes : List UInt8) : beNat bytes < 256 ^ bytes.length := by
  induction bytes using List.reverseRecOn with
  | nil => simp [beNat]
  | append_singleton bytes byte ih =>
      have hbyte : byte.toNat < 256 := byte.toNat_lt
      have happend : beNat (bytes ++ [byte]) = beNat bytes * 256 + byte.toNat := by simp [beNat]
      rw [happend, List.length_append, List.length_singleton, Nat.pow_succ]
      omega

theorem field_lt (bytes : List UInt8) (offset width : Nat) :
    field bytes offset width < 256 ^ width := by
  calc field bytes offset width
      < 256 ^ ((bytes.drop offset).take width).length := beNat_lt _
    _ ≤ 256 ^ width := Nat.pow_le_pow_right (by simp) (List.length_take_le ..)

/-- The price that the cast of an unsigned number gives. -/
def signedPrice (wirePrice : Nat) : Price := (UInt32.ofNat wirePrice).toInt32

theorem toInt_signedPrice {wirePrice : Nat} (hlt : wirePrice < 2 ^ 32) :
    (signedPrice wirePrice).toInt =
      if wirePrice < 2 ^ 31 then (wirePrice : Int) else wirePrice - 2 ^ 32 := by
  have hnat : (UInt32.ofNat wirePrice).toNat = wirePrice := UInt32.toNat_ofNat_of_lt' hlt
  rw [signedPrice, ← Int32.toInt_toBitVec, UInt32.toBitVec_toInt32, BitVec.toInt_eq_toNat_cond,
    UInt32.toNat_toBitVec, hnat]
  split <;> split <;> omega

theorem signedPrice_ne_invalid {wirePrice : Nat} (hlt : wirePrice < 2 ^ 31) :
    signedPrice wirePrice ≠ priceInvalid := by
  intro heq
  have hint := congrArg Int32.toInt heq
  rw [toInt_signedPrice (by omega), if_pos hlt] at hint
  have hinvalid : priceInvalid.toInt = -2 ^ 31 := by decide
  omega

section Best

variable {wirePrices : List Nat}

/-- **The best bid** is the largest number exactly if no price turns negative. -/
theorem bestBid_follows_iff (hlt : ∀ wirePrice ∈ wirePrices, wirePrice < 2 ^ 32) :
    (∀ largest ∈ wirePrices.max?,
        (((wirePrices.map signedPrice).dedup.max?).getD priceInvalid).toInt = largest)
      ∧ (((wirePrices.map signedPrice).dedup.max?).getD priceInvalid = priceInvalid ↔ wirePrices = [])
      ↔ ∀ wirePrice ∈ wirePrices, wirePrice < 2 ^ 31 := by
  cases hbest : (wirePrices.map signedPrice).dedup.max? with
  | none =>
      obtain rfl : wirePrices = [] := by simpa using hbest
      simp
  | some best =>
      obtain ⟨hmem, hmax⟩ := List.max?_eq_some_iff.mp hbest
      simp only [List.mem_dedup, List.forall_mem_map] at hmem hmax
      obtain ⟨first, hfirst, rfl⟩ := List.mem_map.mp hmem
      obtain ⟨largest, hlargest⟩ : ∃ largest, wirePrices.max? = some largest :=
        Option.isSome_iff_exists.mp (List.isSome_max?_of_mem hfirst)
      obtain ⟨hmem', hle⟩ := List.max?_eq_some_iff.mp hlargest
      have hne : wirePrices ≠ [] := List.ne_nil_of_mem hfirst
      simp only [hlargest, Option.mem_some_iff, forall_eq', Option.getD_some, hne, iff_false]
      constructor
      · rintro ⟨heq, -⟩ wirePrice hwire
        have hbound := (signedPrice first).toInt_lt
        have := hle wirePrice hwire
        omega
      · intro hsmall
        refine ⟨?_, signedPrice_ne_invalid (hsmall first hfirst)⟩
        have hge := Int32.le_iff_toInt_le.mp (hmax largest hmem')
        rw [toInt_signedPrice (hlt _ hmem'), if_pos (hsmall _ hmem')] at hge
        rw [toInt_signedPrice (hlt _ hfirst), if_pos (hsmall _ hfirst)] at hge ⊢
        have := hle first hfirst
        omega

/-- **The best ask** is the smallest number exactly if no price turns negative. -/
theorem bestAsk_follows_iff (hlt : ∀ wirePrice ∈ wirePrices, wirePrice < 2 ^ 32) :
    (∀ smallest ∈ wirePrices.min?,
        (((wirePrices.map signedPrice).dedup.min?).getD priceInvalid).toInt = smallest)
      ∧ (((wirePrices.map signedPrice).dedup.min?).getD priceInvalid = priceInvalid ↔ wirePrices = [])
      ↔ ∀ wirePrice ∈ wirePrices, wirePrice < 2 ^ 31 := by
  cases hbest : (wirePrices.map signedPrice).dedup.min? with
  | none =>
      obtain rfl : wirePrices = [] := by simpa using hbest
      simp
  | some best =>
      obtain ⟨hmem, hmin⟩ := List.min?_eq_some_iff.mp hbest
      simp only [List.mem_dedup, List.forall_mem_map] at hmem hmin
      obtain ⟨first, hfirst, rfl⟩ := List.mem_map.mp hmem
      obtain ⟨smallest, hsmallest⟩ : ∃ smallest, wirePrices.min? = some smallest :=
        Option.isSome_iff_exists.mp (List.isSome_min?_of_mem hfirst)
      obtain ⟨hmem', hge⟩ := List.min?_eq_some_iff.mp hsmallest
      have hne : wirePrices ≠ [] := List.ne_nil_of_mem hfirst
      simp only [hsmallest, Option.mem_some_iff, forall_eq', Option.getD_some, hne, iff_false]
      constructor
      · -- a negative price would be below every other
        rintro ⟨heq, -⟩ wirePrice hwire
        have hle := Int32.le_iff_toInt_le.mp (hmin wirePrice hwire)
        rw [toInt_signedPrice (hlt _ hwire)] at hle
        have := hlt _ hwire
        split at hle <;> omega
      · intro hsmall
        refine ⟨?_, signedPrice_ne_invalid (hsmall first hfirst)⟩
        have hle := Int32.le_iff_toInt_le.mp (hmin smallest hmem')
        rw [toInt_signedPrice (hlt _ hmem'), if_pos (hsmall _ hmem')] at hle
        rw [toInt_signedPrice (hlt _ hfirst), if_pos (hsmall _ hfirst)] at hle ⊢
        have := hge first hfirst
        omega

end Best

/-! ### Runs of adds -/

namespace Payload

/-- The price on the wire, an unsigned number. -/
def wirePrice (msg : Payload) : Nat := field msg 32 4

theorem wirePrice_lt (msg : Payload) : wirePrice msg < 2 ^ 32 := field_lt msg 32 4

/-- The order that an add describes. -/
def toFlat (msg : Payload) : FlatEntry := ⟨ref msg, side msg, price msg, shares msg⟩

end Payload

/-- The frame is a complete add of a ticker, with a quantity. -/
def IsAddFor (ticker : TickerId) (wire : List UInt8) : Prop :=
  ∃ message ∈ framed? 8 wire, (message.1 = .addOrder ∨ message.1 = .addOrderMpid)
    ∧ message.2.stockLocate = ticker ∧ message.2.shares ≠ 0

instance (ticker : TickerId) (wire : List UInt8) : Decidable (IsAddFor ticker wire) :=
  inferInstanceAs (Decidable (∃ _ ∈ _, _))

/-- The prices of the orders of one side, as numbers. -/
def wirePrices (side : Side) (frames : List (List UInt8)) : List Nat :=
  ((frames.map (List.drop 8)).filter fun msg => Payload.side msg = side).map Payload.wirePrice

/-- The top of the book is the best number of each side, and no price if the side is empty. -/
structure BBO.Follows (bbo : BBO) (buys sells : List Nat) : Prop where
  bid : ∀ largest ∈ buys.max?, bbo.bidPrice.toInt = largest
  noBid : bbo.bidPrice = priceInvalid ↔ buys = []
  ask : ∀ smallest ∈ sells.min?, bbo.askPrice.toInt = smallest
  noAsk : bbo.askPrice = priceInvalid ↔ sells = []

theorem BBO.follows_iff {bbo : BBO} {buys sells : List Nat} : bbo.Follows buys sells ↔
    ((∀ largest ∈ buys.max?, bbo.bidPrice.toInt = largest) ∧ (bbo.bidPrice = priceInvalid ↔ buys = []))
      ∧ ((∀ smallest ∈ sells.min?, bbo.askPrice.toInt = smallest)
        ∧ (bbo.askPrice = priceInvalid ↔ sells = [])) :=
  ⟨fun h => ⟨⟨h.bid, h.noBid⟩, h.ask, h.noAsk⟩, fun h => ⟨h.1.1, h.1.2, h.2.1, h.2.2⟩⟩

instance (bbo : BBO) (buys sells : List Nat) : Decidable (bbo.Follows buys sells) :=
  decidable_of_iff _ BBO.follows_iff.symm

theorem prices_of_entries {flat : FlatBook} {frames : List (List UInt8)}
    (hentries : flat.entries = frames.map fun wire => Payload.toFlat (wire.drop 8)) (side : Side) :
    flat.prices side = ((wirePrices side frames).map signedPrice).dedup := by
  rw [FlatBook.prices, hentries, wirePrices]
  simp only [List.filter_map, List.map_map]
  rfl

theorem follows_of_entries {flat : FlatBook} {frames : List (List UInt8)}
    (hentries : flat.entries = frames.map fun wire => Payload.toFlat (wire.drop 8)) :
    flat.bbo.Follows (wirePrices .buy frames) (wirePrices .sell frames) ↔
      ∀ wire ∈ frames, Payload.wirePrice (wire.drop 8) < 2 ^ 31 := by
  have hlt : ∀ side, ∀ wirePrice ∈ wirePrices side frames, wirePrice < 2 ^ 32 := by
    intro side wirePrice hmem
    obtain ⟨msg, -, rfl⟩ := List.mem_map.mp hmem
    exact Payload.wirePrice_lt msg
  rw [BBO.follows_iff, FlatBook.bbo, FlatBook.bestBid, FlatBook.bestAsk, prices_of_entries hentries,
    prices_of_entries hentries, bestBid_follows_iff (hlt .buy), bestAsk_follows_iff (hlt .sell)]
  constructor
  · rintro ⟨hbuy, hsell⟩ wire hmem
    cases hside : Payload.side (wire.drop 8) with
    | buy => exact hbuy _ (by simpa [wirePrices] using ⟨wire, ⟨hmem, hside⟩, rfl⟩)
    | sell => exact hsell _ (by simpa [wirePrices] using ⟨wire, ⟨hmem, hside⟩, rfl⟩)
  · intro hsmall
    constructor <;> intro wirePrice hmem
    all_goals
      obtain ⟨wire, ⟨hwire, -⟩, rfl⟩ : ∃ wire, (wire ∈ frames ∧ _) ∧
        Payload.wirePrice (wire.drop 8) = wirePrice := by simpa [wirePrices] using hmem
      exact hsmall wire hwire

namespace Feed

variable {π : Type} [ObjectPool π] {s : Feed π} {flats : TickerId → FlatBook} {ticker : TickerId}

/-- **One add** lists its order in the flat book of its ticker. -/
theorem inStep_add (fuel : Nat) {wire : List UInt8} (hstep : InStep s flats) (hadd : IsAddFor ticker wire)
    (hvalid : Payload.ref (wire.drop 8) ≠ orderIdInvalid)
    (hnew : ∀ entry ∈ (flats ticker).entries, entry.ref ≠ Payload.ref (wire.drop 8)) :
    ∃ s', s.feed fuel wire = some s' ∧ InStep s' (Function.update flats ticker
      ((flats ticker).append (Payload.toFlat (wire.drop 8)))) := by
  obtain ⟨⟨type, msg⟩, hframed, htype, rfl, hshares⟩ := hadd
  obtain ⟨hbyte, hlength, rfl⟩ := framed?_eq_some_iff.mp hframed
  have htracks : (flats (Payload.stockLocate (wire.drop 8))).tracks (Payload.ref (wire.drop 8)) = false := by
    simpa [FlatBook.tracks] using hnew
  have hlive := ((hstep.agrees _).eq_none_iff).mpr htracks
  obtain ⟨s', hfeed, out, hstep'⟩ := inStep_message fuel hstep hbyte (by rcases htype with rfl | rfl <;> simp)
    hlength rfl (by rcases htype with rfl | rfl <;> simp) fun _ => ⟨hshares, hvalid, hlive⟩
  refine ⟨s', hfeed, ?_⟩
  rcases htype with rfl | rfl <;> simp only [touch] at hstep'
  · rwa [applyUpdate_addUpdate (hstep.ticker _) (Or.inl rfl) htracks] at hstep'
  · rwa [applyUpdate_addUpdate (hstep.ticker _) (Or.inr rfl) htracks] at hstep'

/-- **A run of adds** lists its orders in the flat book, in the order of the frames. -/
theorem inStep_adds (fuel : Nat) {frames : List (List UInt8)} (hstep : InStep s flats)
    (hadds : ∀ wire ∈ frames, IsAddFor ticker wire)
    (hvalid : ∀ wire ∈ frames, Payload.ref (wire.drop 8) ≠ orderIdInvalid)
    (hrefs : ((flats ticker).entries.map FlatEntry.ref
      ++ frames.map fun wire => Payload.ref (wire.drop 8)).Nodup) :
    ∃ s', frames.foldlM (feed fuel) s = some s' ∧ ∃ flats', InStep s' flats'
      ∧ (flats' ticker).entries =
        (flats ticker).entries ++ frames.map fun wire => Payload.toFlat (wire.drop 8) := by
  induction frames generalizing s flats with
  | nil => exact ⟨s, rfl, flats, hstep, by simp⟩
  | cons wire frames ih =>
      have hnew : ∀ entry ∈ (flats ticker).entries, entry.ref ≠ Payload.ref (wire.drop 8) := by
        intro entry hmem heq
        exact (List.nodup_append.mp hrefs).2.2 _ (List.mem_map_of_mem hmem) _ (by simp) heq
      obtain ⟨s₁, hfeed, hstep₁⟩ := inStep_add fuel hstep (hadds wire (by simp)) (hvalid wire (by simp)) hnew
      obtain ⟨s', hrun, flats', hstep', hentries⟩ := ih hstep₁ (fun w hw => hadds w (by simp [hw]))
        (fun w hw => hvalid w (by simp [hw])) (by simpa [FlatBook.append, Payload.toFlat] using hrefs)
      refine ⟨s', ?_, flats', hstep', ?_⟩
      · rw [List.foldlM_cons, hfeed]
        exact hrun
      · simpa [FlatBook.append] using hentries

theorem validRef_of_feed {fuel : Nat} {wire : List UInt8} {s' : Feed π} (hadd : IsAddFor ticker wire)
    (hfeed : s.feed fuel wire = some s') : Payload.ref (wire.drop 8) ≠ orderIdInvalid := by
  obtain ⟨⟨type, msg⟩, hframed, htype, -, -⟩ := hadd
  obtain ⟨hbyte, hlength, rfl⟩ := framed?_eq_some_iff.mp hframed
  obtain ⟨result, hdecode, -⟩ := Option.bind_eq_some_iff.mp hfeed
  rw [decode_eq_decodeMessage hbyte hlength] at hdecode
  have hrange := (decodeMessage_isSome_iff ..).mp (Option.isSome_of_eq_some hdecode)
  rcases htype with rfl | rfl <;> exact hrange.1

theorem validRef_of_run {fuel : Nat} {frames : List (List UInt8)} {s' : Feed π}
    (hadds : ∀ wire ∈ frames, IsAddFor ticker wire) (hrun : frames.foldlM (feed fuel) s = some s') :
    ∀ wire ∈ frames, Payload.ref (wire.drop 8) ≠ orderIdInvalid := by
  induction frames generalizing s with
  | nil => simp
  | cons wire frames ih =>
      rw [List.foldlM_cons] at hrun
      obtain ⟨s₁, hfeed, hrun⟩ := Option.bind_eq_some_iff.mp hrun
      rw [List.forall_mem_cons]
      exact ⟨validRef_of_feed (hadds wire (by simp)) hfeed, ih (fun w hw => hadds w (by simp [hw])) hrun⟩

/-- **The top of the book** after a run of adds is the best price on the wire exactly if every price is
below `2 ^ 31` and every reference can be stored. -/
theorem bbo_follows_iff (π : Type) [ObjectPool π] (fuel : Nat) (ticker : TickerId)
    (frames : List (List UInt8)) (hadds : ∀ wire ∈ frames, IsAddFor ticker wire)
    (hrefs : (frames.map fun wire => Payload.ref (wire.drop 8)).Nodup) :
    (∃ s, frames.foldlM (feed fuel) (init π) = some s
        ∧ (s.books ticker).bbo.Follows (wirePrices .buy frames) (wirePrices .sell frames)) ↔
      ∀ wire ∈ frames, Payload.ref (wire.drop 8) ≠ orderIdInvalid
        ∧ Payload.wirePrice (wire.drop 8) < 2 ^ 31 := by
  have hbbo : (∀ wire ∈ frames, Payload.ref (wire.drop 8) ≠ orderIdInvalid) →
      ∃ s, frames.foldlM (feed fuel) (init π) = some s
        ∧ ((s.books ticker).bbo.Follows (wirePrices .buy frames) (wirePrices .sell frames) ↔
          ∀ wire ∈ frames, Payload.wirePrice (wire.drop 8) < 2 ^ 31) := by
    intro hvalid
    have hinit : InStep (init π) FlatBook.init := inStep_init
    obtain ⟨s, hrun, flats, hstep, hflat⟩ := inStep_adds fuel hinit hadds hvalid hrefs
    have hsim := hstep.simulates ticker
    obtain ⟨orders, hrep, hentries⟩ := hsim.orders
    refine ⟨s, hrun, ?_⟩
    rw [hrep.bbo_eq hsim.best hentries]
    exact follows_of_entries hflat
  rw [forall₂_and]
  constructor
  · rintro ⟨s, hrun, hfollows⟩
    have hvalid := validRef_of_run hadds hrun
    obtain ⟨s', hrun', hiff⟩ := hbbo hvalid
    obtain rfl := Option.some.inj (hrun.symm.trans hrun')
    exact ⟨hvalid, hiff.mp hfollows⟩
  · rintro ⟨hvalid, hsmall⟩
    obtain ⟨s, hrun, hiff⟩ := hbbo hvalid
    exact ⟨s, hrun, hiff.mpr hsmall⟩

/-- An add of ticker 7 at a price whose bytes are given. -/
def addFrame (ref side : UInt8) (price : List UInt8) : List UInt8 :=
  [0, 0, 0, 0, 0, 0, 0, 1, 65, 0, 7] ++ List.replicate 8 0 ++
    [0, 0, 0, 0, 0, 0, 0, ref, side, 0, 0, 0, 10] ++ List.replicate 8 0 ++ price

/-- Two bids and an ask below the sign bit. -/
theorem bbo_follows_iff_twoBids :
    ∃ s, List.foldlM (feed 0) (init FreeListPool)
        [addFrame 1 66 [0, 0, 0, 100], addFrame 2 66 [127, 255, 255, 255], addFrame 3 83 [0, 0, 0, 99]] = some s
      ∧ (s.books 7).bbo.Follows [100, 2 ^ 31 - 1] [99] :=
  (bbo_follows_iff FreeListPool 0 7 _ (by decide +kernel) (by decide +kernel)).mpr (by decide +kernel)

/-- **The higher of two bids** is not the best one once it reaches `2 ^ 31`. -/
theorem widePrice_hidden :
    ([addFrame 1 66 [0, 0, 0, 100], addFrame 2 66 [128, 0, 0, 0]].foldlM (feed 0)
        (init FreeListPool)).any (fun s =>
      (s.books 7).bbo.bidPrice = 100 ∧ ¬ (s.books 7).bbo.Follows [100, 2 ^ 31] []) = true
    ∧ ([addFrame 2 66 [128, 0, 0, 0]].foldlM (feed 0) (init FreeListPool)).any (fun s =>
      (s.books 7).bbo.bidPrice = priceInvalid ∧ (s.books 7).trackedOrders = 1) = true := by
  decide +kernel

end Feed

end AlphaTrader
