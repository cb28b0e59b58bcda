import AlphaTrader.Trading.EngineRun
import AlphaTrader.Trading.Features

/-!
# The program

`src/main.cpp`: the command line, the engine that is built from it, and the summary that is printed when
the threads have stopped. Addresses, ports and cores go to sockets and threads, which are not modelled;
their options are read over. How many requests the queue takes is up to the queue.
-/

namespace AlphaTrader

namespace Main

/-- The parts of `Config` that reach the engine. -/
structure Config where
  tickers : List TickerId := [1]
  limits : RiskLimits := ⟨100, 10, 100000000⟩
  signal : LiquidityTaker := { orderQty := 10, entryImbalance := 300000 }

/-! ### Numbers -/

/-- `isspace` in the C locale. -/
def isSpace (c : Char) : Bool := c = ' ' || ('\t' ≤ c && c ≤ '\r')

def digitsValue (digits : List Char) : Nat :=
  (digits.takeWhile Char.isDigit).foldl (fun value c => 10 * value + (c.toNat - '0'.toNat)) 0

/-- White space, a sign and digits; what follows them is ignored, and no digits are zero. -/
def numberValue (text : String) : Int :=
  match text.toList.dropWhile isSpace with
  | '-' :: digits => -digitsValue digits
  | '+' :: digits => digitsValue digits
  | digits => digitsValue digits

/-- The behaviour is undefined where the number is not an `int`. -/
def atoi (text : String) : Option Int32 :=
  let value := numberValue text
  if -2 ^ 31 ≤ value ∧ value ≤ 2 ^ 31 - 1 then some (Int32.ofInt value) else none

/-- The behaviour is undefined where the number is not a `long long`. -/
def atoll (text : String) : Option Int :=
  let value := numberValue text
  if PnLTracker.FitsInt64 value then some value else none

/-! ### The command line -/

/-- What the value of an option is used for. -/
inductive Setting where
  /-- The address of a socket. -/
  | text
  /-- A port or a core. -/
  | number
  | ticker
  | positionLimit
  | orderLimit
  | notionalLimit
  | iocQty
  | imbalance
  deriving DecidableEq, Repr

/-- The options that take a value. -/
def Setting.ofArg? (arg : String) : Option Setting :=
  if arg ∈ ["--gateway-ip", "--mcast-iface", "--snapshot-ip", "--incremental-ip"] then some .text
  else if arg ∈ ["--gateway-port", "--snapshot-port", "--incremental-port", "--receive-port",
    "--core-consumer", "--core-engine", "--core-gateway"] then some .number
  else if arg = "--ticker" then some .ticker
  else if arg = "--position-limit" then some .positionLimit
  else if arg = "--order-limit" then some .orderLimit
  else if arg = "--notional-limit" then some .notionalLimit
  else if arg = "--ioc-qty" then some .iocQty
  else if arg = "--imbalance" then some .imbalance
  else none

/-- The conversion of an `int` to 32 bits without a sign. -/
def unsigned (value : Int32) : UInt32 := value.toUInt32

def Setting.set (cfg : Config) (value : String) : Setting → Option Config
  | .text => some cfg
  | .number => do
      let _ ← atoi value
      return cfg
  | .ticker => do
      let ticker ← atoi value
      return { cfg with tickers := cfg.tickers ++ [unsigned ticker] }
  | .positionLimit => do
      let limit ← atoll value
      return { cfg with limits := { cfg.limits with maxAbsPosition := limit } }
  | .orderLimit => do
      let limit ← atoi value
      return { cfg with limits := { cfg.limits with maxOrderQty := unsigned limit } }
  | .notionalLimit => do
      let limit ← atoll value
      return { cfg with limits := { cfg.limits with maxOrderNotional := limit } }
  | .iocQty => do
      let qty ← atoi value
      return { cfg with signal := { cfg.signal with orderQty := unsigned qty } }
  | .imbalance => do
      let imbalance ← atoi value
      return { cfg with signal := { cfg.signal with entryImbalance := imbalance } }

inductive Parsed where
  | config (cfg : Config)
  | exit (code : Nat)
  /-- A number was out of range. -/
  | undefined

/-- The loop of `parseArgs`. An option without its value, `--help` and an unknown argument end the
program. -/
def parseFrom (cfg : Config) : List String → Parsed
  | [] => .config cfg
  | [arg] => .exit (if arg = "--help" then 0 else 1)
  | arg :: value :: rest =>
      match Setting.ofArg? arg with
      | none => .exit (if arg = "--help" then 0 else 1)
      | some setting =>
          match setting.set cfg value with
          | none => .undefined
          | some cfg => parseFrom cfg rest

/-- The arguments behind the name of the program. -/
def parseArgs (args : List String) : Parsed := parseFrom {} args

/-! ### The engine -/

/-- `TradeEngine<TradingFeatures, LiquidityTaker, 4, 16, 64>`, whose order managers hold 256 orders. -/
def capacity : Capacity := ⟨16, 64, 256⟩

def maxSlots : Nat := 4

abbrev Engine (π : Type) := TradeEngine LiquidityTaker MainFeatures π capacity

section Engine

variable {π : Type} [ObjectPool π]

/-- The loop over the tickers; the program ends at the first that cannot be registered. -/
def registerTickers (limits : RiskLimits) (engine : Engine π) : List TickerId → Option (Engine π)
  | [] => some engine
  | ticker :: rest =>
      let (registered, engine) := engine.registerTicker 0 ticker limits
      if registered then registerTickers limits engine rest else none

/-- The engine that `main` starts. -/
def engine (π : Type) [ObjectPool π] (requestCapacity : Nat) (cfg : Config) : Option (Engine π) :=
  registerTickers cfg.limits (TradeEngine.init cfg.signal 1 maxSlots requestCapacity) cfg.tickers

end Engine

/-! ### The summary -/

structure PositionLine where
  tickerId : TickerId
  netQty : Int
  entry : Price
  realized : Int
  unrealized : Int
  deriving DecidableEq, Repr

structure Summary where
  ordersSent : Nat
  replaces : Nat
  cancels : Nat
  riskRejected : Nat
  fills : Nat
  filledQty : UInt64
  /-- All recorded orders, also those that are finished. -/
  liveSlots : Nat
  positions : List PositionLine
  totalPnl : Option Int

def summary {π : Type} (cfg : Config) (engine : Engine π) : Option Summary :=
  (engine.orders 0).map fun om =>
    { ordersSent := om.newOrders
      replaces := om.replaces
      cancels := om.cancels
      riskRejected := om.rejected
      fills := om.fills
      filledQty := om.filledQty
      liveSlots := om.orders.length
      positions := cfg.tickers.filterMap fun ticker =>
        (om.pnl.get ticker).map fun position =>
          ⟨ticker, position.netQty, position.avgEntryPrice, position.realizedPnl, position.unrealizedPnl⟩
      totalPnl := om.pnl.totalPnL }

end Main

end AlphaTrader
