import AlphaTrader.Trading.Strategy

/-!
# The features that `main` puts together

`src/trading/features/spread_feature.h` and the feature engine of `src/main.cpp`: four features that see
every update of their ticker. The spread and the trade ratio are undefined once their signed arithmetic
has overflowed, and are `none` then.
-/

namespace AlphaTrader

/-- The value of `SpreadFeature`. -/
def BBO.spread (bbo : BBO) : Option Price :=
  if bbo.bidPrice = priceInvalid ∨ bbo.askPrice = priceInvalid then some priceInvalid
  else
    let spread := bbo.askPrice.toInt - bbo.bidPrice.toInt
    if -2 ^ 31 ≤ spread ∧ spread ≤ 2 ^ 31 - 1 then some (Int32.ofInt spread) else none

/-- `FeatureEngine<MktPriceFeature, SpreadFeature, OrderBookImbalanceFeature, AggTradeRatioFeature>` -/
@[ext]
structure MainFeatures where
  mktPrice : Price := priceInvalid
  spread : Option Price := some priceInvalid
  imbalance : Ratio := ratioInvalid
  aggTradeRatio : Option AggTradeRatio := some {}
  deriving DecidableEq, Repr

namespace MainFeatures

instance : FeatureEngine MainFeatures where
  fresh := {}
  onMarketUpdate features update book :=
    { mktPrice := book.bbo.mktPrice
      spread := book.bbo.spread
      imbalance := book.bbo.imbalance
      aggTradeRatio := features.aggTradeRatio.bind fun ratio => ratio.onMarketUpdate update }
  mktPrice := MainFeatures.mktPrice

/-- The features that the liquidity taker reads. -/
def read (features : MainFeatures) : TradingFeatures :=
  { mktPrice := features.mktPrice, imbalance := features.imbalance }

end MainFeatures

instance {cap : Capacity} : Strategy LiquidityTaker MainFeatures cap where
  onBookUpdate hasRoom taker entry book _ om :=
    let (sent, om) := taker.evaluate hasRoom ⟨entry.tickerId, entry.features.read⟩ book om
    (sent, taker, om)
  onTrade hasRoom taker entry book _ om :=
    let (sent, om) := taker.evaluate hasRoom ⟨entry.tickerId, entry.features.read⟩ book om
    (sent, taker, om)

end AlphaTrader
