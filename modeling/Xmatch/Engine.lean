import Xmatch.FlatHashMap
import Xmatch.Lib.Effect
import Xmatch.OrderBook

/-! The engine: configuration, matching, and the three requests. A request runs as a
program on a session, the engine together with the callbacks delivered so far; it may be
cut short by the listener or by a failed allocation, and then leaves what it has done. -/
namespace Xmatch

structure Engine where
  orderIndex : FlatHashMap := FlatHashMap.empty
  instrumentIndex : FlatHashMap := FlatHashMap.empty
  pool : OrderPool := {}
  books : Buffer OrderBook := Buffer.replicate 0 {}
  nextTradeId : TradeId := 1
  configured : Bool := false

/- A callback, with the engine as it stands while the listener runs. -/
structure Callback where
  event : Event
  seen : Engine

structure Session where
  engine : Engine
  log : List Callback := []

def Session.events (session : Session) : List Event := session.log.map (·.event)

-- `diverged` stands for a loop that does not end; the other two are exceptions.
inductive Abort where
  | listener
  | memory
  | diverged
  deriving DecidableEq, Repr

/- What the outside decides during one request: whether the listener throws out of the
callback that makes the events what they are, and whether an allocation succeeds. -/
structure Env where
  throws : List Event → Bool
  chunk : Bool
  slots : Bool

def Env.calm : Env := ⟨fun _ => false, true, true⟩

def Env.Quiet (env : Env) : Prop := ∀ events, env.throws events = false

theorem calmQuiet : Env.calm.Quiet := fun _ => rfl

abbrev Op := Effect.Program Session Abort

namespace Engine

def kDefaultOrderCapacity : Nat := 16777216

inductive Failure where
  | badAlloc
  | other
  deriving DecidableEq, Repr

def Failure.result : Failure → ConfigureResult
  | .badAlloc => .outOfMemory
  | .other => .internalError

def acceptable (cfg : InstrumentConfig) : Bool :=
  !(decide (kPriceMax.tdiv kMaxBandBps < cfg.referencePrice) ||
    !TickTable.isTickAligned kTickSchedule cfg.referencePrice ||
    decide (kMaxBandBps < cfg.bandBps.toNat))

-- `none`: a ladder left the range of a price. `trouble` says which step throws, if any.
def configureBooks (trouble : Nat → Option Failure) :
    Nat → List InstrumentConfig → Buffer OrderBook → FlatHashMap →
      Option (Except ConfigureResult (Buffer OrderBook × FlatHashMap))
  | _, [], books, index => some (.ok (books, index))
  | i, cfg :: rest, books, index =>
    if !acceptable cfg then some (.error .invalidArgument)
    else if index.contains cfg.instrumentId.toUInt64 then some (.error .invalidArgument)
    else match trouble (i + 1) with
      | some failure => some (.error failure.result)
      | none => match OrderBook.configure cfg.instrumentId cfg.referencePrice cfg.bandBps with
        | none => none
        | some book => match index.insert true cfg.instrumentId.toUInt64 (UInt32.ofNat i) with
          | none => some (.error .outOfMemory)
          | some index => configureBooks trouble (i + 1) rest (books.write i book) index

def configure (trouble : Nat → Option Failure) (instruments : Option (List InstrumentConfig))
    (engine : Engine) : Option (ConfigureResult × Engine) :=
  if engine.configured then some (.alreadyConfigured, engine)
  else match instruments with
    | none => some (.invalidArgument, engine)
    | some instruments =>
      if instruments.length = 0 ∨ kUint32Max < instruments.length then
        some (.invalidArgument, engine)
      else match trouble 0 with
        | some failure => some (failure.result, engine)
        | none =>
          match configureBooks trouble 0 instruments (Buffer.replicate instruments.length {})
              (FlatHashMap.empty.reserve instruments.length) with
          | none => none
          | some (.error result) => some (result, engine)
          | some (.ok (books, index)) => match trouble (instruments.length + 1) with
            | some failure => some (failure.result, engine)
            | none => some (.ok, { engine with
                books := books
                pool := OrderPool.reserve {} kDefaultOrderCapacity
                instrumentIndex := index
                orderIndex := FlatHashMap.empty.reserve kDefaultOrderCapacity
                configured := true })

def findBook (engine : Engine) (id : InstrumentId) : Option Nat :=
  (engine.instrumentIndex.find id.toUInt64).map UInt32.toNat

def crosses (side : Side) (limitPrice restingPrice : Int) : Bool :=
  match side with
  | .buy => decide (restingPrice ≤ limitPrice)
  | .sell => decide (limitPrice ≤ restingPrice)

def topOfBook (engine : Engine) (id : InstrumentId) : TopOfBook :=
  match engine.findBook id with
  | none => {}
  | some b => (engine.books.read b).topOfBook

def putBook (engine : Engine) (b : Nat) (updated : OrderPool × OrderBook) : Engine :=
  { engine with pool := updated.1, books := engine.books.write b updated.2 }

def putRecord (engine : Engine) (slot : Slot) (f : OrderRecord → OrderRecord) : Engine :=
  { engine with pool := engine.pool.modify slot f }

def update (f : Engine → Engine) : Op Unit :=
  modify (fun session => { session with engine := f session.engine })

def current : Op Engine := do return (← get).engine

def emit (env : Env) (event : Event) : Op Unit := do
  modify (fun session => { session with log := session.log ++ [⟨event, session.engine⟩] })
  if env.throws (← get).events then throw .listener

def allocate (env : Env) : Op Slot := do
  match (← current).pool.allocate env.chunk with
  | none => throw .memory
  | some (slot, pool) => do
    update (fun engine => { engine with pool := pool })
    return slot

def insertOrder (env : Env) (id : OrderId) (slot : Slot) : Op Unit := do
  match (← current).orderIndex.insert env.slots id slot with
  | none => throw .memory
  | some index => update (fun engine => { engine with orderIndex := index })

-- The quantities of both records and of the level, after the callback.
def settleTrade (engine : Engine) (b : Nat) (side : Side) (idx : UInt32) (aggressor resting : Slot)
    (fill : Quantity) : Engine :=
  let book := engine.books.read b
  let lvl := book.levelAt side.opposite idx
  engine.putBook b ((engine.pool.fill aggressor fill).fill resting fill,
    book.putLevel side.opposite idx { lvl with totalQty := lvl.totalQty - fill })

def tradeHead (env : Env) (b : Nat) (instrumentId : InstrumentId) (aggressor : Slot) (side : Side)
    (idx : UInt32) : Op Unit := do
  let engine ← current
  let restingSlot := ((engine.books.read b).levelAt side.opposite idx).head
  let agg := engine.pool.get aggressor
  let resting := engine.pool.get restingSlot
  let fill := if resting.openQty < agg.openQty then resting.openQty else agg.openQty
  update (fun engine => { engine with nextTradeId := engine.nextTradeId + 1 })
  emit env (.trade engine.nextTradeId.toNat instrumentId resting.price fill.toNat
    resting.id agg.id side)
  update (fun engine => engine.settleTrade b side idx aggressor restingSlot fill)
  let engine ← current
  if (engine.pool.get restingSlot).openQty = 0 then
    update (fun engine => engine.putBook b
      (OrderBook.removeResting engine.pool (engine.books.read b) restingSlot))

def levelGoesOn (engine : Engine) (b : Nat) (aggressor : Slot) (side : Side) (idx : UInt32) :
    Bool :=
  decide (0 < (engine.pool.get aggressor).openQty) &&
    decide (((engine.books.read b).levelAt side.opposite idx).head ≠ kInvalidSlot)

-- The inner loop, over the queue of one level.
def matchLevel (env : Env) (b : Nat) (instrumentId : InstrumentId) (aggressor : Slot) (side : Side)
    (idx : UInt32) : Nat → Op Unit
  | 0 => do if (← current).levelGoesOn b aggressor side idx then throw .diverged
  | fuel + 1 => do
    if (← current).levelGoesOn b aggressor side idx then
      tradeHead env b instrumentId aggressor side idx
      matchLevel env b instrumentId aggressor side idx fuel

def matchingGoesOn (engine : Engine) (b : Nat) (aggressor : Slot) (side : Side) (limitPrice : Int)
    (isMarket : Bool) : Bool :=
  let book := engine.books.read b
  decide (0 < (engine.pool.get aggressor).openQty) && book.hasBest side.opposite &&
    (isMarket || crosses side limitPrice
      (book.indexToPrice (UInt32.ofInt (book.bestIndex side.opposite))))

-- The outer loop, over the levels of the opposite side; `fuel` bounds both loops.
def matchLevels (env : Env) (b : Nat) (instrumentId : InstrumentId) (aggressor : Slot) (side : Side)
    (limitPrice : Int) (isMarket : Bool) (inner : Nat) : Nat → Op Unit
  | 0 => do if (← current).matchingGoesOn b aggressor side limitPrice isMarket then throw .diverged
  | fuel + 1 => do
    let engine ← current
    if engine.matchingGoesOn b aggressor side limitPrice isMarket then
      matchLevel env b instrumentId aggressor side
        (UInt32.ofInt ((engine.books.read b).bestIndex side.opposite)) inner
      matchLevels env b instrumentId aggressor side limitPrice isMarket inner fuel

def runMatching (env : Env) (b : Nat) (instrumentId : InstrumentId) (aggressor : Slot) (side : Side)
    (limitPrice : Int) (isMarket : Bool) : Op Unit := do
  let rounds := (← current).pool.size + 1
  matchLevels env b instrumentId aggressor side limitPrice isMarket rounds rounds

-- `none`: the walk did not end within `fuel` levels.
def sumLevels (book : OrderBook) (side : Side) (isMarket : Bool) (limitPrice : Int)
    (needed : Quantity) :
    Nat → Int → Quantity → Option Bool
  | 0, _, _ => none
  | fuel + 1, idx, available =>
    if 0 ≤ idx then
      let restingPrice := book.indexToPrice (UInt32.ofInt idx)
      if !isMarket && !crosses side limitPrice restingPrice then some (decide (needed ≤ available))
      else
        let available := available + (book.levelAt side.opposite (UInt32.ofInt idx)).totalQty
        if needed ≤ available then some true
        else sumLevels book side isMarket limitPrice needed fuel
          (book.nextIndex side.opposite idx) available
    else some (decide (needed ≤ available))

def canFullyFill (book : OrderBook) (side : Side) (isMarket : Bool) (limitPrice : Int)
    (needed : Quantity) : Option Bool :=
  if !book.hasBest side.opposite then some false
  else sumLevels book side isMarket limitPrice needed (book.ladder.size.toNat + 1)
    (book.bestIndex side.opposite) 0

-- What is left after matching rests or is reported canceled.
def disposeRemainder (env : Env) (b : Nat) (slot : Slot) (order : NewOrder) (price : Int) :
    Op Unit := do
  let remaining := ((← current).pool.get slot).openQty
  if 0 < remaining then
    if order.tif = .day then
      update (fun engine =>
        engine.putBook b
          (OrderBook.addResting engine.pool (engine.books.read b) slot order.side price))
    else
      let reason : CancelReason :=
        if order.type = .market then .noLiquidity
        else if order.tif = .ioc then .iocRemainder else .fokUnfillable
      update (fun engine => engine.putRecord slot (fun rec => { rec with openQty := 0 }))
      emit env (.canceled order.orderId remaining.toNat reason)

def matchAndDispose (env : Env) (b : Nat) (slot : Slot) (order : NewOrder) (price : Int) :
    Op Unit := do
  runMatching env b order.instrumentId slot order.side price (order.type = .market)
  disposeRemainder env b slot order price

def execute (env : Env) (b : Nat) (slot : Slot) (order : NewOrder) (price : Int) : Op Unit := do
  let engine ← current
  if order.tif = .fok then
    match canFullyFill (engine.books.read b) order.side (order.type = .market) price
      order.quantity with
    | none => throw .diverged
    | some true => matchAndDispose env b slot order price
    | some false =>
      update (fun engine => engine.putRecord slot (fun rec => { rec with openQty := 0 }))
      emit env (.canceled order.orderId order.quantity.toNat .fokUnfillable)
  else matchAndDispose env b slot order price

-- The checks after the id is consumed.
def invalid (book : OrderBook) (order : NewOrder) : Option RejectReason :=
  if order.quantity = 0 then some .invalidQuantity
  else if order.type = .market ∧ order.tif = .day then some .invalidTimeInForce
  else if order.type ≠ .market then
    if !TickTable.isTickAligned kTickSchedule order.price then some .invalidPriceTick
    else if book.priceToIndex order.price < 0 then some .priceOutOfBand
    else none
  else none

-- The id is consumed here, before the checks.
def enterOrder (env : Env) (order : NewOrder) : Op Slot := do
  let slot ← allocate env
  update (fun engine => engine.putRecord slot (fun rec =>
    { rec with id := order.orderId, instrumentId := order.instrumentId, side := order.side }))
  insertOrder env order.orderId slot
  return slot

def accept (env : Env) (slot : Slot) (order : NewOrder) : Op Unit := do
  update (fun engine => engine.putRecord slot (fun rec =>
    { rec with openQty := order.quantity, filledQty := 0 }))
  emit env (.accepted order.orderId)

def limitPrice (order : NewOrder) : Int := if order.type = .market then 0 else order.price

def submit (env : Env) (order : NewOrder) : Op Unit := do
  let engine ← current
  if !engine.configured then emit env (.rejected order.orderId .notConfigured)
  else match engine.findBook order.instrumentId with
    | none => emit env (.rejected order.orderId .unknownInstrument)
    | some b =>
      if engine.orderIndex.contains order.orderId then
        emit env (.rejected order.orderId .duplicateOrderId)
      else do
        let slot ← enterOrder env order
        match invalid (engine.books.read b) order with
        | some reason => emit env (.rejected order.orderId reason)
        | none => do
          accept env slot order
          execute env b slot order (limitPrice order)

-- The slot of an order that rests.
def findOpen (engine : Engine) (id : OrderId) : Option Slot :=
  match engine.orderIndex.find id with
  | none => none
  | some slot => if (engine.pool.get slot).isOpen then some slot else none

-- The book of a resting order; the source dereferences it unchecked.
def bookOf (engine : Engine) (slot : Slot) : Nat :=
  (engine.findBook (engine.pool.get slot).instrumentId).getD 0

def cancelSlot (env : Env) (id : OrderId) (slot : Slot) : Op Unit := do
  let engine ← current
  let b := engine.bookOf slot
  let openQty := (engine.pool.get slot).openQty
  update (fun engine => engine.putBook b
    (OrderBook.removeResting engine.pool (engine.books.read b) slot))
  emit env (.canceled id openQty.toNat .userRequested)

def cancel (env : Env) (request : CancelOrder) : Op Unit := do
  let engine ← current
  if !engine.configured then emit env (.rejected request.orderId .notConfigured)
  else match engine.findOpen request.orderId with
    | none => emit env (.rejected request.orderId .unknownOrder)
    | some slot => cancelSlot env request.orderId slot

def replacementOpen (request : ReplaceOrder) (old : OrderRecord) : Quantity :=
  if old.filledQty < request.newQuantity then request.newQuantity - old.filledQty else 0

def enterReplacement (env : Env) (request : ReplaceOrder) (old : OrderRecord) : Op Slot := do
  let newSlot ← allocate env
  update (fun engine => engine.putRecord newSlot (fun rec =>
    { rec with
      id := request.newOrderId, instrumentId := old.instrumentId, side := old.side,
      price := request.newPrice,
      openQty := replacementOpen request old, filledQty := old.filledQty }))
  if request.newOrderId = request.orderId then
    update (fun engine =>
      { engine with orderIndex := engine.orderIndex.assignExisting request.newOrderId newSlot })
  else insertOrder env request.newOrderId newSlot
  return newSlot

-- Out of the old place, through the book again if the price moved, and to the back of the queue.
def requeue (env : Env) (request : ReplaceOrder) (b : Nat) (oldSlot newSlot : Slot)
    (old : OrderRecord) : Op Unit := do
  update (fun engine => engine.putBook b
    (OrderBook.removeResting engine.pool (engine.books.read b) oldSlot))
  emit env (.replaced request.orderId request.newOrderId request.newPrice
    (replacementOpen request old).toNat)
  if request.newPrice ≠ old.price then
    runMatching env b old.instrumentId newSlot old.side request.newPrice false
  let engine ← current
  if 0 < (engine.pool.get newSlot).openQty then
    update (fun engine =>
      engine.putBook b
        (OrderBook.addResting engine.pool (engine.books.read b) newSlot old.side request.newPrice))

def replaceSlot (env : Env) (request : ReplaceOrder) (b : Nat) (oldSlot : Slot)
    (old : OrderRecord) : Op Unit := do
  let newSlot ← enterReplacement env request old
  if request.newPrice ≠ old.price ∨ old.openQty < replacementOpen request old then
    requeue env request b oldSlot newSlot old
  else do
    update (fun engine =>
      engine.putBook b (OrderBook.replaceInPlace engine.pool (engine.books.read b) oldSlot newSlot))
    emit env (.replaced request.orderId request.newOrderId request.newPrice
      (replacementOpen request old).toNat)

def replace (env : Env) (request : ReplaceOrder) : Op Unit := do
  let engine ← current
  if !engine.configured then emit env (.rejected request.newOrderId .notConfigured)
  else match engine.findOpen request.orderId with
    | none => emit env (.rejected request.newOrderId .unknownOrder)
    | some oldSlot =>
      let old := engine.pool.get oldSlot
      let b := engine.bookOf oldSlot
      if replacementOpen request old = 0 then cancelSlot env request.orderId oldSlot
      else if request.newOrderId ≠ request.orderId ∧
          engine.orderIndex.contains request.newOrderId then
        emit env (.rejected request.newOrderId .duplicateOrderId)
      else if !TickTable.isTickAligned kTickSchedule request.newPrice then
        emit env (.rejected request.newOrderId .invalidPriceTick)
      else if (engine.books.read b).priceToIndex request.newPrice < 0 then
        emit env (.rejected request.newOrderId .priceOutOfBand)
      else replaceSlot env request b oldSlot old

/- Sessions. An exception is swallowed at the boundary of the request; what was done stays. -/
def perform (env : Env) : Request → Op Unit
  | .submit order => submit env order
  | .cancel request => cancel env request
  | .replace request => replace env request

def call (env : Env) (request : Request) (engine : Engine) : Session :=
  ((perform env request).run.run { engine := engine }).2

inductive Action where
  | configure (trouble : Nat → Option Failure) (instruments : Option (List InstrumentConfig))
  | call (env : Env) (request : Request)

-- An overflow while configuring is undefined; it never happens (`configureDefined`).
def act (engine : Engine) : Action → Engine
  | .configure trouble instruments =>
    match engine.configure trouble instruments with
    | some (_, configured) => configured
    | none => engine
  | .call env request => (call env request engine).engine

def after (actions : List Action) : Engine := actions.foldl act {}

end Engine
end Xmatch
