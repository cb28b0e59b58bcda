import AlphaTrader.MarketOrderBook
import AlphaTrader.Trading.OrderManager

/-!
# Features and the liquidity taker

`src/trading/features` and `src/trading/strategy.h`. The engine is generic in the features and the
strategy; what it asks of them is in the two classes. Of the features that `main` puts together only two
are read: the market price, which marks positions, and the imbalance, which the liquidity taker trades
on. The ratio of aggressive buying is here by itself.
-/

namespace AlphaTrader

abbrev Ratio := Int32

def ratioInvalid : Ratio := Int32.minValue

def ratioScale : Int64 := 1000000

/-- A `FeatureEngine` with a `MktPriceFeature`. -/
class FeatureEngine (F : Type) where
  fresh : F
  onMarketUpdate {π : Type} : F → MarketUpdate → MarketOrderBook π → F
  mktPrice : F → Price

namespace BBO

/-- A quantity in the 64-bit arithmetic of the features. -/
def wide (qty : Quantity) : Int64 := qty.toUInt64.toInt64

/-- The value of `MktPriceFeature`. -/
def mktPrice (bbo : BBO) : Price :=
  if bbo.bidPrice = priceInvalid ∨ bbo.askPrice = priceInvalid ∨ bbo.bidQty = 0 ∨ bbo.askQty = 0 then
    priceInvalid
  else
    ((bbo.askPrice.toInt64 * wide bbo.bidQty + bbo.bidPrice.toInt64 * wide bbo.askQty)
      / (wide bbo.bidQty + wide bbo.askQty)).toInt32

/-- The value of `OrderBookImbalanceFeature`. -/
def imbalance (bbo : BBO) : Ratio :=
  let total := wide bbo.bidQty + wide bbo.askQty
  if bbo.bidPrice = priceInvalid ∨ bbo.askPrice = priceInvalid ∨ total = 0 then ratioInvalid
  else ((wide bbo.bidQty - wide bbo.askQty) * ratioScale / total).toInt32

end BBO

/-- `AggTradeRatioFeature`, with its signed 64-bit totals as numbers. Their overflow is undefined and
gives `none`. -/
structure AggTradeRatio where
  buyQty : Int := 0
  sellQty : Int := 0
  deriving DecidableEq, Repr

namespace AggTradeRatio

open PnLTracker (FitsInt64)

def onMarketUpdate (ratio : AggTradeRatio) (update : MarketUpdate) : Option AggTradeRatio :=
  if update.type ≠ .execute then some ratio
  else if update.side = .sell then
    let buyQty := ratio.buyQty + update.qty.toNat
    if FitsInt64 buyQty then some { ratio with buyQty := buyQty } else none
  else
    let sellQty := ratio.sellQty + update.qty.toNat
    if FitsInt64 sellQty then some { ratio with sellQty := sellQty } else none

def value (ratio : AggTradeRatio) : Option Ratio :=
  let total := ratio.buyQty + ratio.sellQty
  if ¬ FitsInt64 total then none
  else if total = 0 then some ratioInvalid
  else
    let scaled := ratio.buyQty * ratioScale.toInt
    if FitsInt64 scaled then some (Int32.ofInt (scaled.tdiv total)) else none

def reset (_ : AggTradeRatio) : AggTradeRatio := { buyQty := 0, sellQty := 0 }

end AggTradeRatio

/-- The features that are read, of those that `main` puts together. -/
structure TradingFeatures where
  mktPrice : Price := priceInvalid
  imbalance : Ratio := ratioInvalid
  deriving DecidableEq, Repr

instance : FeatureEngine TradingFeatures where
  fresh := {}
  onMarketUpdate _ _ book := { mktPrice := book.bbo.mktPrice, imbalance := book.bbo.imbalance }
  mktPrice := TradingFeatures.mktPrice

/-- The state of a ticker in a slot. The book is the one that the engine keeps for the ticker. -/
structure Entry (F : Type) where
  tickerId : TickerId
  features : F

/-- The hooks of a strategy: they get the room of the request queue, the entry with its book, the update
and the order manager, and return how many orders they have sent. `onOrderUpdate` is left out; it gets
no order manager, and the liquidity taker ignores it. -/
class Strategy (S F : Type) (cap : Capacity) where
  onBookUpdate {π : Type} : (List OrderRequest → Bool) → S → Entry F → MarketOrderBook π →
    MarketUpdate → Slot cap → Nat × S × Slot cap
  onTrade {π : Type} : (List OrderRequest → Bool) → S → Entry F → MarketOrderBook π →
    MarketUpdate → Slot cap → Nat × S × Slot cap

/-- The strategy with its `IocSignalConfig`. -/
structure LiquidityTaker where
  orderQty : Quantity := 0
  entryImbalance : Ratio := 1000000
  deriving DecidableEq, Repr

namespace LiquidityTaker

variable {π : Type} {cap : Capacity}

/-- The side and the price that the signal calls for. -/
def signal (taker : LiquidityTaker) (imbalance : Ratio) (bbo : BBO) : Option (Side × Price) :=
  if taker.entryImbalance ≤ imbalance then some (.buy, bbo.askPrice)
  else if imbalance ≤ -taker.entryImbalance then some (.sell, bbo.bidPrice)
  else none

def evaluate (hasRoom : List OrderRequest → Bool) (taker : LiquidityTaker)
    (entry : Entry TradingFeatures) (book : MarketOrderBook π) (om : Slot cap) : Nat × Slot cap :=
  let imbalance := entry.features.imbalance
  if imbalance = ratioInvalid ∨ taker.orderQty = 0 then (0, om)
  else
    match taker.signal imbalance book.bbo with
    | none => (0, om)
    | some (side, price) =>
        match om.pnl.get entry.tickerId with
        | none => (0, om)
        | some position =>
            if price = priceInvalid then (0, om)
            else
              let request : OrderRequest :=
                ⟨.new, 0, 0, entry.tickerId, side, price, taker.orderQty, true⟩
              let (sent, om) := om.sendNewOrder request position (hasRoom om.outgoing)
              (if sent then 1 else 0, om)

instance : Strategy LiquidityTaker TradingFeatures cap where
  onBookUpdate hasRoom taker entry book _ om :=
    let (sent, om) := taker.evaluate hasRoom entry book om
    (sent, taker, om)
  onTrade hasRoom taker entry book _ om :=
    let (sent, om) := taker.evaluate hasRoom entry book om
    (sent, taker, om)

end LiquidityTaker

end AlphaTrader
