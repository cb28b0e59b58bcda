import AlphaTrader.Trading.Strategy

/-!
# The arithmetic of the features

The features compute with signed 64-bit numbers. The market price weighs each quote with the quantity of
the other side, so it lies between the quotes as long as the two products together fit. The trade ratio
scales a total that only grows, so it is the exact ratio as long as the scaled total fits. The imbalance
always fits.
-/

namespace AlphaTrader

open PnLTracker (FitsInt64)

/-! ### Signed 64-bit operations -/

section Operations

variable {a b : Int64}

theorem PnLTracker.FitsInt64.bmod_eq {value : Int} (hfits : FitsInt64 value) : value.bmod (2 ^ 64) = value := by
  obtain ⟨hmin, hmax⟩ := hfits
  exact Int.bmod_eq_of_le (by omega) (by omega)

theorem toInt_mul_of_fits (hfits : FitsInt64 (a.toInt * b.toInt)) : (a * b).toInt = a.toInt * b.toInt := by
  rw [Int64.toInt_mul, hfits.bmod_eq]

theorem toInt_add_of_fits (hfits : FitsInt64 (a.toInt + b.toInt)) : (a + b).toInt = a.toInt + b.toInt := by
  rw [Int64.toInt_add, hfits.bmod_eq]

theorem toInt_sub_of_fits (hfits : FitsInt64 (a.toInt - b.toInt)) : (a - b).toInt = a.toInt - b.toInt := by
  rw [Int64.toInt_sub, hfits.bmod_eq]

theorem toInt_div_of_nonneg (ha : 0 ≤ a.toInt) (hb : 0 ≤ b.toInt) : (a / b).toInt = a.toInt / b.toInt := by
  have hle : a.toInt / b.toInt ≤ a.toInt := Int.ediv_le_self _ ha
  have hnonneg : 0 ≤ a.toInt / b.toInt := Int.ediv_nonneg ha hb
  have hlt := a.toInt_lt
  rw [Int64.toInt_div, Int.tdiv_eq_ediv_of_nonneg ha]
  exact Int.bmod_eq_of_le (by omega) (by omega)

theorem BBO.toInt_wide (qty : Quantity) : (wide qty).toInt = qty.toNat := by
  have hlt := qty.toNat_lt
  rw [wide, ← Int64.toInt_toBitVec, UInt64.toBitVec_toInt64, BitVec.toInt_eq_toNat_of_lt]
  · simp
  · simp; omega

end Operations

/-! ### The market price -/

namespace BBO

variable {bbo : BBO}

/-- Both sides have a price and a quantity. -/
def Quoted (bbo : BBO) : Prop :=
  bbo.bidPrice ≠ priceInvalid ∧ bbo.askPrice ≠ priceInvalid ∧ bbo.bidQty ≠ 0 ∧ bbo.askQty ≠ 0

instance (bbo : BBO) : Decidable bbo.Quoted := inferInstanceAs (Decidable (_ ∧ _))

/-- The quotes, each weighed with the quantity of the other side. -/
def weighted (bbo : BBO) : Int :=
  bbo.askPrice.toInt * bbo.bidQty.toNat + bbo.bidPrice.toInt * bbo.askQty.toNat

/-- No operation of `MktPriceFeature` overflows. -/
def MktPriceFits (bbo : BBO) : Prop :=
  bbo.Quoted → FitsInt64 (bbo.askPrice.toInt * bbo.bidQty.toNat)
    ∧ FitsInt64 (bbo.bidPrice.toInt * bbo.askQty.toNat) ∧ FitsInt64 bbo.weighted
    ∧ FitsInt64 (bbo.bidQty.toNat + bbo.askQty.toNat)

instance (bbo : BBO) : Decidable bbo.MktPriceFits := inferInstanceAs (Decidable (_ → _))

theorem mktPrice_of_not_quoted (hquoted : ¬ bbo.Quoted) : bbo.mktPrice = priceInvalid := by
  rw [mktPrice, if_pos]
  unfold Quoted at hquoted
  tauto

/-- Only the sum of the two products can be too large. -/
theorem mktPriceFits_iff (hbid : 0 ≤ bbo.bidPrice.toInt) (hask : 0 ≤ bbo.askPrice.toInt)
    (hquoted : bbo.Quoted) : bbo.MktPriceFits ↔ bbo.weighted < 2 ^ 63 := by
  have hbidQty := bbo.bidQty.toNat_lt
  have haskQty := bbo.askQty.toNat_lt
  have hleft : 0 ≤ bbo.askPrice.toInt * bbo.bidQty.toNat := by positivity
  have hright : 0 ≤ bbo.bidPrice.toInt * bbo.askQty.toNat := by positivity
  constructor
  · intro hfits
    have hmax := (hfits hquoted).2.2.1.2
    omega
  · intro hlt _
    unfold weighted at hlt ⊢
    refine ⟨⟨?_, ?_⟩, ⟨?_, ?_⟩, ⟨?_, ?_⟩, ⟨?_, ?_⟩⟩ <;> omega

/-- **The market price** is the exact weighted mean, rounded down. -/
theorem toInt_mktPrice (hbid : 0 ≤ bbo.bidPrice.toInt) (hask : 0 ≤ bbo.askPrice.toInt)
    (hquoted : bbo.Quoted) (hlt : bbo.weighted < 2 ^ 63)
    (hmean : bbo.weighted / (bbo.bidQty.toNat + bbo.askQty.toNat) < 2 ^ 31) :
    bbo.mktPrice.toInt = bbo.weighted / (bbo.bidQty.toNat + bbo.askQty.toNat) := by
  obtain ⟨hleft, hright, hsum, htotal⟩ := (mktPriceFits_iff hbid hask hquoted).mpr hlt hquoted
  obtain ⟨hbidValid, haskValid, hbidQty, haskQty⟩ := hquoted
  have hnonneg : 0 ≤ bbo.weighted := by unfold weighted; positivity
  have hleft' : (bbo.askPrice.toInt64 * wide bbo.bidQty).toInt =
      bbo.askPrice.toInt * bbo.bidQty.toNat := by
    rw [toInt_mul_of_fits] <;> rw [Int32.toInt_toInt64, toInt_wide]
    exact hleft
  have hright' : (bbo.bidPrice.toInt64 * wide bbo.askQty).toInt =
      bbo.bidPrice.toInt * bbo.askQty.toNat := by
    rw [toInt_mul_of_fits] <;> rw [Int32.toInt_toInt64, toInt_wide]
    exact hright
  have hsum' : (bbo.askPrice.toInt64 * wide bbo.bidQty + bbo.bidPrice.toInt64 * wide bbo.askQty).toInt =
      bbo.weighted := by
    rw [toInt_add_of_fits] <;> rw [hleft', hright']
    · rfl
    · exact hsum
  have htotal' : (wide bbo.bidQty + wide bbo.askQty).toInt = bbo.bidQty.toNat + bbo.askQty.toNat := by
    rw [toInt_add_of_fits] <;> rw [toInt_wide, toInt_wide]
    exact htotal
  have hmeanNonneg : 0 ≤ bbo.weighted / (bbo.bidQty.toNat + bbo.askQty.toNat) :=
    Int.ediv_nonneg hnonneg (by omega)
  rw [mktPrice, if_neg (by simp [hbidValid, haskValid, hbidQty, haskQty]), Int64.toInt_toInt32,
    toInt_div_of_nonneg (by rw [hsum']; exact hnonneg) (by rw [htotal']; omega), hsum', htotal']
  exact Int.bmod_eq_of_le (by omega) (by omega)

/-- A weighted mean of two quotes lies between them. -/
theorem weighted_bounds (hle : bbo.bidPrice.toInt ≤ bbo.askPrice.toInt) :
    bbo.bidPrice.toInt * (bbo.bidQty.toNat + bbo.askQty.toNat) ≤ bbo.weighted
      ∧ bbo.weighted ≤ bbo.askPrice.toInt * (bbo.bidQty.toNat + bbo.askQty.toNat) := by
  unfold weighted
  constructor <;> nlinarith

theorem mktPrice_inside (hbid : 0 ≤ bbo.bidPrice.toInt) (hle : bbo.bidPrice.toInt ≤ bbo.askPrice.toInt)
    (hquoted : bbo.Quoted) (hlt : bbo.weighted < 2 ^ 63) :
    bbo.bidPrice ≤ bbo.mktPrice ∧ bbo.mktPrice ≤ bbo.askPrice := by
  have hpos : (0 : Int) < bbo.bidQty.toNat + bbo.askQty.toNat := by
    have hne : bbo.bidQty.toNat ≠ 0 := fun h => hquoted.2.2.1 (UInt32.toNat_inj.mp h)
    omega
  obtain ⟨hlower, hupper⟩ := weighted_bounds hle
  have hlower' := Int.le_ediv_of_mul_le hpos hlower
  have hupper' := Int.ediv_le_of_le_mul hpos hupper
  have hmax := bbo.askPrice.toInt_lt
  rw [Int32.le_iff_toInt_le, Int32.le_iff_toInt_le,
    toInt_mktPrice hbid (by omega) hquoted hlt (by omega)]
  exact ⟨hlower', hupper'⟩

end BBO

/-- **The market price lies inside the quote**, without overflow, exactly if the weighted quotes fit in
63 bits. -/
theorem mktPrice_inside_iff {π : Type} (features : TradingFeatures) (update : MarketUpdate)
    (book : MarketOrderBook π)
    (hquote : book.bbo.bidPrice ≠ priceInvalid → book.bbo.askPrice ≠ priceInvalid →
      0 ≤ book.bbo.bidPrice ∧ book.bbo.bidPrice ≤ book.bbo.askPrice) :
    (book.bbo.MktPriceFits
        ∧ (FeatureEngine.mktPrice (FeatureEngine.onMarketUpdate features update book) = priceInvalid
          ∨ (book.bbo.bidPrice ≤ FeatureEngine.mktPrice (FeatureEngine.onMarketUpdate features update book)
            ∧ FeatureEngine.mktPrice (FeatureEngine.onMarketUpdate features update book) ≤ book.bbo.askPrice)))
      ↔ (book.bbo.Quoted → book.bbo.weighted < 2 ^ 63) := by
  change (_ ∧ (book.bbo.mktPrice = priceInvalid ∨ (_ ≤ book.bbo.mktPrice ∧ book.bbo.mktPrice ≤ _))) ↔ _
  by_cases hquoted : book.bbo.Quoted
  · obtain ⟨hbid, hle⟩ := hquote hquoted.1 hquoted.2.1
    rw [Int32.le_iff_toInt_le] at hbid hle
    have hfits : book.bbo.MktPriceFits ↔ book.bbo.weighted < 2 ^ 63 :=
      BBO.mktPriceFits_iff hbid (hbid.trans hle) hquoted
    constructor
    · rintro ⟨hall, -⟩ -
      exact hfits.mp hall
    · intro hlt
      exact ⟨hfits.mpr (hlt hquoted), Or.inr (BBO.mktPrice_inside hbid hle hquoted (hlt hquoted))⟩
  · exact iff_of_true ⟨fun h => absurd h hquoted, Or.inl (BBO.mktPrice_of_not_quoted hquoted)⟩
      fun h => absurd h hquoted

/-- A book with one order on each side. -/
def twoSided (qty : Quantity) (bid ask : Price) : Option (MarketOrderBook FreeListPool) :=
  (MarketOrderBook.init FreeListPool 7).applyUpdates 0
    [{ tickerId := 7, orderRef := 1, side := .buy, price := bid, qty := qty },
      { tickerId := 7, orderRef := 2, side := .sell, price := ask, qty := qty }]

theorem mktPrice_inside_iff_twoSided :
    ∃ book, twoSided 100 1000000 1001000 = some book ∧ book.bbo.MktPriceFits
      ∧ (FeatureEngine.mktPrice (FeatureEngine.onMarketUpdate ({} : TradingFeatures) {} book) = priceInvalid
        ∨ (book.bbo.bidPrice ≤ FeatureEngine.mktPrice (FeatureEngine.onMarketUpdate ({} : TradingFeatures) {} book)
          ∧ FeatureEngine.mktPrice (FeatureEngine.onMarketUpdate ({} : TradingFeatures) {} book)
            ≤ book.bbo.askPrice)) := by
  have hbook : (twoSided 100 1000000 1001000).any (fun book =>
      book.bbo = ⟨1000000, 100, 1001000, 100⟩) = true := by decide +kernel
  obtain ⟨book, hrun, hbbo⟩ := (Option.any_eq_true _ _).mp hbook
  refine ⟨book, hrun, (mktPrice_inside_iff {} {} book ?_).mpr ?_⟩ <;> rw [of_decide_eq_true hbbo] <;> decide

/-- **Large quotes** that agree give a negative market price. -/
theorem largeQuotes_overflow :
    (twoSided 4294967295 2147483647 2147483647).any (fun book =>
      book.bbo.Quoted ∧ ¬ book.bbo.MktPriceFits ∧ book.bbo.bidPrice = 2147483647
        ∧ FeatureEngine.mktPrice (FeatureEngine.onMarketUpdate ({} : TradingFeatures) {} book) = -1) = true := by
  decide +kernel

/-! ### The imbalance -/

namespace BBO

variable {bbo : BBO}

/-- The imbalance in exact arithmetic, rounded towards zero. -/
def exactImbalance (bbo : BBO) : Int :=
  (((bbo.bidQty.toNat : Int) - bbo.askQty.toNat) * 1000000).tdiv (bbo.bidQty.toNat + bbo.askQty.toNat)

/-- The imbalance is at most the scale on either side. -/
theorem natAbs_exactImbalance_le (bbo : BBO) : bbo.exactImbalance.natAbs ≤ 1000000 := by
  rw [exactImbalance, Int.natAbs_tdiv]
  apply Nat.div_le_of_le_mul
  rw [Int.natAbs_mul]
  have hle : ((bbo.bidQty.toNat : Int) - bbo.askQty.toNat).natAbs ≤
      ((bbo.bidQty.toNat : Int) + bbo.askQty.toNat).natAbs := by omega
  exact Nat.mul_le_mul_right _ hle

/-- **The imbalance** of a book with two sides is the exact one. -/
theorem toInt_imbalance (hvalid : bbo.imbalance ≠ ratioInvalid) :
    bbo.bidPrice ≠ priceInvalid ∧ bbo.askPrice ≠ priceInvalid
      ∧ bbo.imbalance.toInt = bbo.exactImbalance := by
  have hbid := bbo.bidQty.toNat_lt
  have hask := bbo.askQty.toNat_lt
  have hbound := bbo.natAbs_exactImbalance_le
  have htotal : (wide bbo.bidQty + wide bbo.askQty).toInt = bbo.bidQty.toNat + bbo.askQty.toNat := by
    rw [toInt_add_of_fits] <;> rw [toInt_wide, toInt_wide]
    constructor <;> omega
  have hdifference : (wide bbo.bidQty - wide bbo.askQty).toInt =
      (bbo.bidQty.toNat : Int) - bbo.askQty.toNat := by
    rw [toInt_sub_of_fits] <;> rw [toInt_wide, toInt_wide]
    constructor <;> omega
  have hscale : ratioScale.toInt = 1000000 := rfl
  have hscaled : ((wide bbo.bidQty - wide bbo.askQty) * ratioScale).toInt =
      ((bbo.bidQty.toNat : Int) - bbo.askQty.toNat) * 1000000 := by
    rw [toInt_mul_of_fits] <;> rw [hdifference, hscale]
    constructor <;> omega
  unfold imbalance at hvalid ⊢
  dsimp only at hvalid ⊢
  split at hvalid
  case isTrue => exact absurd rfl hvalid
  case isFalse hquoted =>
      simp only [not_or] at hquoted
      refine ⟨hquoted.1, hquoted.2.1, ?_⟩
      rw [if_neg (by simpa using hquoted), Int64.toInt_toInt32, Int64.toInt_div, hscaled, htotal, ← exactImbalance]
      have hfits : FitsInt64 bbo.exactImbalance := by
        constructor <;> omega
      rw [hfits.bmod_eq]
      exact Int.bmod_eq_of_le (by omega) (by omega)

end BBO

/-! ### The trade ratio -/

/-- The quantity that an update executes of a resting order of one side. -/
def executedOf (side : Side) (update : MarketUpdate) : Nat :=
  if update.type = .execute ∧ update.side = side then update.qty.toNat else 0

def executedQty (side : Side) (updates : List MarketUpdate) : Nat := (updates.map (executedOf side)).sum

namespace AggTradeRatio

/-- **One update** keeps the exact totals, as long as they fit. -/
theorem onMarketUpdate_eq {buys sells : Nat} (hbuys : buys < 2 ^ 63) (hsells : sells < 2 ^ 63)
    (update : MarketUpdate) :
    onMarketUpdate ⟨buys, sells⟩ update =
      if buys + executedOf .sell update < 2 ^ 63 ∧ sells + executedOf .buy update < 2 ^ 63 then
        some ⟨(buys + executedOf .sell update : Nat), (sells + executedOf .buy update : Nat)⟩
      else none := by
  unfold onMarketUpdate executedOf
  by_cases htype : update.type = .execute
  · cases hside : update.side <;> simp [htype, FitsInt64] <;> grind
  · simp only [htype, ne_eq, not_false_eq_true, if_true, false_and, if_false, Nat.add_zero]
    rw [if_pos ⟨hbuys, hsells⟩]

/-- **A run** keeps the exact totals, as long as they fit. -/
theorem foldlM_onMarketUpdate (ratio : AggTradeRatio) (updates : List MarketUpdate) :
    updates.foldlM onMarketUpdate ratio.reset =
      if executedQty .sell updates < 2 ^ 63 ∧ executedQty .buy updates < 2 ^ 63 then
        some ⟨executedQty .sell updates, executedQty .buy updates⟩
      else none := by
  induction updates using List.reverseRecOn with
  | nil => simp [executedQty, reset]
  | append_singleton updates update ih =>
      have happend : ∀ side, executedQty side (updates ++ [update]) =
          executedQty side updates + executedOf side update := by simp [executedQty]
      rw [List.foldlM_append, ih, happend, happend]
      by_cases hfits : executedQty .sell updates < 2 ^ 63 ∧ executedQty .buy updates < 2 ^ 63
      · rw [if_pos hfits]
        simpa using onMarketUpdate_eq hfits.1 hfits.2 update
      · rw [if_neg hfits, if_neg (by omega)]
        rfl

/-- The ratio of two totals, scaled and rounded down. -/
def Exact (buys sells : Nat) (ratio : Ratio) : Prop :=
  if buys + sells = 0 then ratio = ratioInvalid
  else ratio.toInt = (1000000 * buys / (buys + sells) : Nat) ∧ 0 ≤ ratio.toInt ∧ ratio.toInt ≤ ratioScale.toInt

theorem toInt_ratioScale : ratioScale.toInt = 1000000 := by decide

theorem exact_ofInt {buys sells : Nat} (hne : buys + sells ≠ 0) :
    Exact buys sells (Int32.ofInt ((buys * ratioScale.toInt).tdiv (buys + sells))) := by
  have hle : 1000000 * buys / (buys + sells) ≤ 1000000 :=
    Nat.div_le_of_le_mul (by nlinarith)
  have hdiv : (buys * ratioScale.toInt).tdiv (buys + sells) = (1000000 * buys / (buys + sells) : Nat) := by
    rw [toInt_ratioScale, Int.tdiv_eq_ediv_of_nonneg (by positivity), mul_comm]
    norm_cast
  rw [Exact, if_neg hne, hdiv, toInt_ratioScale]
  generalize 1000000 * buys / (buys + sells) = quotient at hle
  have hint : (Int32.ofInt quotient).toInt = quotient := Int32.toInt_ofInt_of_le (by omega) (by omega)
  omega

theorem value_eq_some_iff {buys sells : Nat} :
    (∃ ratio, value ⟨buys, sells⟩ = some ratio ∧ Exact buys sells ratio) ↔
      buys + sells < 2 ^ 63 ∧ 1000000 * buys < 2 ^ 63 := by
  have htotal : FitsInt64 (buys + sells) ↔ buys + sells < 2 ^ 63 := by unfold FitsInt64; omega
  have hscaled : FitsInt64 (buys * ratioScale.toInt) ↔ 1000000 * buys < 2 ^ 63 := by
    rw [toInt_ratioScale]
    unfold FitsInt64
    omega
  constructor
  · rintro ⟨ratio, hvalue, -⟩
    unfold value at hvalue
    simp only [htotal, hscaled] at hvalue
    split_ifs at hvalue <;> omega
  · intro hfits
    unfold value
    simp only [htotal, hscaled, hfits, not_true_eq_false, if_false, if_true]
    by_cases hzero : buys + sells = 0
    · have hzero' : (buys + sells : Int) = 0 := by omega
      exact ⟨_, if_pos hzero', by rw [Exact, if_pos hzero]⟩
    · have hzero' : (buys + sells : Int) ≠ 0 := by omega
      exact ⟨_, if_neg hzero', exact_ofInt hzero⟩

/-- **The trade ratio** is the exact ratio of all executions since the reset exactly if their total, and
the buying scaled by a million, fit in 63 bits. -/
theorem value_exact_iff (ratio : AggTradeRatio) (updates : List MarketUpdate) :
    (∃ ratio', updates.foldlM onMarketUpdate ratio.reset = some ratio'
        ∧ ∃ value, ratio'.value = some value ∧ Exact (executedQty .sell updates) (executedQty .buy updates) value) ↔
      executedQty .sell updates + executedQty .buy updates < 2 ^ 63
        ∧ 1000000 * executedQty .sell updates < 2 ^ 63 := by
  rw [foldlM_onMarketUpdate]
  constructor
  · rintro ⟨ratio', hrun, hvalue⟩
    split at hrun
    case isTrue =>
        obtain rfl := Option.some.inj hrun
        exact value_eq_some_iff.mp hvalue
    case isFalse => cases hrun
  · intro hfits
    refine ⟨_, if_pos (by omega), value_eq_some_iff.mpr hfits⟩

/-- A resting order of the largest quantity is executed, many times over. -/
def largeExecutions (count : Nat) : List MarketUpdate :=
  List.replicate count { type := .execute, side := .sell, qty := 4294967295 }

/-- **A long run** of executions overflows. -/
theorem largeExecutions_overflow :
    ((largeExecutions 2147).foldlM onMarketUpdate {}).any (fun ratio => ratio.value = some 1000000) = true
      ∧ ((largeExecutions 2148).foldlM onMarketUpdate {}).any (fun ratio => ratio.value = none) = true := by
  decide +kernel

end AggTradeRatio

end AlphaTrader
