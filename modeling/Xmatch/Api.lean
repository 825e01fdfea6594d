import Mathlib.Tactic.Common
import Mathlib.Data.Int.Interval

/-! The public interface of the engine: scalar types, requests and events.
A `Price` is an `Int`: the engine never leaves the 64-bit range on prices it
admits, and where a sum could leave it the model says so explicitly. Event fields
carry the value a callback receives. -/
namespace Xmatch

abbrev Quantity := UInt32
abbrev OrderId := UInt64
abbrev TradeId := UInt64
abbrev InstrumentId := UInt32

/- `std::numeric_limits<Price>::max()`. -/
def kPriceMax : Int := 9223372036854775807

def kBpsPerUnit : Nat := 10000
def kMaxBandBps : Nat := kBpsPerUnit
def kUint32Max : Nat := 4294967295

inductive Side where
  | buy
  | sell
  deriving DecidableEq, Repr

def Side.opposite : Side → Side
  | .buy => .sell
  | .sell => .buy

@[simp] theorem Side.oppositeOpposite (side : Side) : side.opposite.opposite = side := by
  cases side <;> rfl

theorem Side.oppositeNe (side : Side) : side.opposite ≠ side := by cases side <;> decide

inductive OrderType where
  | limit
  | market
  deriving DecidableEq, Repr

inductive TimeInForce where
  | day
  | ioc
  | fok
  deriving DecidableEq, Repr

inductive RejectReason where
  | unknownInstrument
  | duplicateOrderId
  | invalidQuantity
  | invalidPriceTick
  | priceOutOfBand
  | invalidTimeInForce
  | unknownOrder
  | notConfigured
  deriving DecidableEq, Repr

inductive CancelReason where
  | userRequested
  | iocRemainder
  | fokUnfillable
  | noLiquidity
  deriving DecidableEq, Repr

inductive ConfigureResult where
  | ok
  | alreadyConfigured
  | invalidArgument
  | outOfMemory
  | internalError
  deriving DecidableEq, Repr

structure InstrumentConfig where
  instrumentId : InstrumentId
  referencePrice : Int
  bandBps : UInt32
  deriving DecidableEq, Repr

structure NewOrder where
  orderId : OrderId
  instrumentId : InstrumentId
  side : Side
  type : OrderType
  tif : TimeInForce
  price : Int
  quantity : Quantity
  deriving DecidableEq, Repr

structure CancelOrder where
  orderId : OrderId
  deriving DecidableEq, Repr

structure ReplaceOrder where
  orderId : OrderId
  newOrderId : OrderId
  newPrice : Int
  newQuantity : Quantity
  deriving DecidableEq, Repr

structure TopOfBook where
  bidPrice : Int := 0
  bidQuantity : Quantity := 0
  askPrice : Int := 0
  askQuantity : Quantity := 0
  deriving DecidableEq, Repr

inductive Request where
  | submit (order : NewOrder)
  | cancel (request : CancelOrder)
  | replace (request : ReplaceOrder)
  deriving DecidableEq, Repr

inductive Event where
  | accepted (orderId : OrderId)
  | rejected (orderId : OrderId) (reason : RejectReason)
  | trade (tradeId : Nat) (instrumentId : InstrumentId) (price : Int) (quantity : Nat)
      (restingOrderId aggressiveOrderId : OrderId) (aggressorSide : Side)
  | canceled (orderId : OrderId) (canceledQuantity : Nat) (reason : CancelReason)
  | replaced (oldOrderId newOrderId : OrderId) (newPrice : Int) (newOpenQuantity : Nat)
  deriving DecidableEq, Repr

end Xmatch
