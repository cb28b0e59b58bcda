import AlphaTrader.Library.LinkedList
import AlphaTrader.Library.Run
import AlphaTrader.Library.Table
import AlphaTrader.Library.Loop
import AlphaTrader.Library.Cells
import AlphaTrader.Library.Incremental
import AlphaTrader.Types
import AlphaTrader.FlatBook
import AlphaTrader.MarketOrderBook
import AlphaTrader.ItchDecoder
import AlphaTrader.MarketDataConsumer
import AlphaTrader.Trading.OrderManager
import AlphaTrader.Trading.Exchange
import AlphaTrader.Trading.Strategy
import AlphaTrader.Trading.TradeEngine
import AlphaTrader.Trading.Features
import AlphaTrader.Trading.EngineRun
import AlphaTrader.Trading.TradingSystem
import AlphaTrader.OrderGateway
import AlphaTrader.Main
import AlphaTrader.Proof.BookInvariant
import AlphaTrader.Proof.BookRefinement
import AlphaTrader.Proof.DecoderAgreement
import AlphaTrader.Proof.DecoderLocality
import AlphaTrader.Proof.ConsumerSpec
import AlphaTrader.Proof.DeliveredStream
import AlphaTrader.Proof.Synchronized
import AlphaTrader.Proof.FrameCells
import AlphaTrader.Proof.DecoderHistory
import AlphaTrader.Proof.RecoveryState
import AlphaTrader.Proof.RecoveryQueue
import AlphaTrader.Proof.FeedParsing
import AlphaTrader.Proof.Framing
import AlphaTrader.Proof.ReplayStream
import AlphaTrader.Proof.RiskSpec
import AlphaTrader.Proof.SlotSpec
import AlphaTrader.Proof.PositionLimit
import AlphaTrader.Proof.OrderIds
import AlphaTrader.Proof.Reservations
import AlphaTrader.Proof.RiskGate
import AlphaTrader.Proof.ExposureAccounting
import AlphaTrader.Proof.Settlement
import AlphaTrader.Proof.ExchangeSpec
import AlphaTrader.Proof.FillConservation
import AlphaTrader.Proof.ResponseParsing
import AlphaTrader.Proof.SyncGate
import AlphaTrader.Proof.PositionAccounting
import AlphaTrader.Proof.ResponseRouting
import AlphaTrader.Proof.OrderLifecycle
import AlphaTrader.Proof.TrackedOrders
import AlphaTrader.Proof.ReplaceAgreement
import AlphaTrader.Proof.RecoveryParsing
import AlphaTrader.Proof.DecoderSafety
import AlphaTrader.Proof.WirePrices
import AlphaTrader.Proof.RequestEncoding
import AlphaTrader.Proof.FeatureArithmetic
import AlphaTrader.Proof.FillPrice
import AlphaTrader.Proof.RecoveryCompletion
import AlphaTrader.Proof.PendingMap
import AlphaTrader.Proof.Registration
import AlphaTrader.Proof.BookMode
import AlphaTrader.Proof.SentOrders
import AlphaTrader.Proof.EngineBooks
import AlphaTrader.Proof.BookReplication
import AlphaTrader.Proof.EngineSlots
import AlphaTrader.Proof.PositionBounds
import AlphaTrader.Proof.ExchangeAgreement
import AlphaTrader.Proof.StalledRecovery
import AlphaTrader.Proof.EngineSettlement
import AlphaTrader.Proof.TradingFloor
import AlphaTrader.Proof.OrderProvenance
import AlphaTrader.Proof.CashConservation
import AlphaTrader.Proof.Program
