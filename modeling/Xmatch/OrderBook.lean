import Xmatch.LevelBitset
import Xmatch.OrderPool
import Xmatch.PriceLadder

/-! One instrument's book: a level array and a bitmap for each side, indexed through the
ladder, with the best index of each side cached. The pool of records is shared. -/
namespace Xmatch

structure Level where
  head : Slot := kInvalidSlot
  tail : Slot := kInvalidSlot
  totalQty : Quantity := 0
  orderCount : UInt32 := 0
  deriving DecidableEq, Repr

structure OrderBook where
  instrumentId : InstrumentId := 0
  referencePrice : Int := 0
  ladder : PriceLadder := {}
  bidLevels : Buffer Level := Buffer.replicate 0 {}
  askLevels : Buffer Level := Buffer.replicate 0 {}
  bidBitmap : LevelBitset := {}
  askBitmap : LevelBitset := {}
  bestBidIdx : Int := -1
  bestAskIdx : Int := -1

namespace OrderBook

def bandLo (book : OrderBook) : Int := book.ladder.bandLo
def bandHi (book : OrderBook) : Int := book.ladder.bandHi
def priceToIndex (book : OrderBook) (price : Int) : Int := book.ladder.priceToIndex price
def indexToPrice (book : OrderBook) (index : UInt32) : Int := book.ladder.indexToPrice index

def rawBand (referencePrice : Int) (bandBps : UInt32) : Int × Int :=
  let delta := (referencePrice * (bandBps.toNat : Int)).tdiv kBpsPerUnit
  let rawLo := referencePrice - delta
  (if rawLo < 1 then 1 else rawLo, referencePrice + delta)

def band (referencePrice : Int) (bandBps : UInt32) : Int × Int :=
  (TickTable.ceilToTick kTickSchedule (rawBand referencePrice bandBps).1,
    TickTable.floorToTick kTickSchedule (rawBand referencePrice bandBps).2)

-- `none`: building the ladder leaves the range of a price.
def configure (instrumentId : InstrumentId) (referencePrice : Int) (bandBps : UInt32) :
    Option OrderBook :=
  let (lo, hi) := band referencePrice bandBps
  (PriceLadder.build kTickSchedule lo hi).map (fun ladder =>
    let n := ladder.size.toNat
    { instrumentId, referencePrice, ladder,
      bidLevels := Buffer.replicate n {},
      askLevels := Buffer.replicate n {},
      bidBitmap := LevelBitset.resize n,
      askBitmap := LevelBitset.resize n,
      bestBidIdx := -1,
      bestAskIdx := -1 })

/- The two sides have the same shape; the source selects one by a conditional. -/
def levels (book : OrderBook) : Side → Buffer Level
  | .buy => book.bidLevels
  | .sell => book.askLevels

def bitmap (book : OrderBook) : Side → LevelBitset
  | .buy => book.bidBitmap
  | .sell => book.askBitmap

def bestIndex (book : OrderBook) : Side → Int
  | .buy => book.bestBidIdx
  | .sell => book.bestAskIdx

def hasBest (book : OrderBook) (side : Side) : Bool := decide (0 ≤ book.bestIndex side)

def levelAt (book : OrderBook) (side : Side) (idx : UInt32) : Level :=
  (book.levels side).read idx.toNat

def putLevel (book : OrderBook) (side : Side) (idx : UInt32) (level : Level) : OrderBook :=
  match side with
  | .buy => { book with bidLevels := book.bidLevels.write idx.toNat level }
  | .sell => { book with askLevels := book.askLevels.write idx.toNat level }

def putBitmap (book : OrderBook) (side : Side) (bits : LevelBitset) : OrderBook :=
  match side with
  | .buy => { book with bidBitmap := bits }
  | .sell => { book with askBitmap := bits }

def putBest (book : OrderBook) (side : Side) (best : Int) : OrderBook :=
  match side with
  | .buy => { book with bestBidIdx := best }
  | .sell => { book with bestAskIdx := best }

def nextIndex (book : OrderBook) (side : Side) (after : Int) : Int :=
  match side with
  | .buy => book.bidBitmap.findHighestLe (after - 1)
  | .sell => book.askBitmap.findLowestGe (after + 1)

def topOfBook (book : OrderBook) : TopOfBook :=
  let bid :=
    if 0 ≤ book.bestBidIdx then
      let idx := UInt32.ofInt book.bestBidIdx
      (book.indexToPrice idx, (book.levelAt .buy idx).totalQty)
    else (0, 0)
  let ask :=
    if 0 ≤ book.bestAskIdx then
      let idx := UInt32.ofInt book.bestAskIdx
      (book.indexToPrice idx, (book.levelAt .sell idx).totalQty)
    else (0, 0)
  { bidPrice := bid.1, bidQuantity := bid.2, askPrice := ask.1, askQuantity := ask.2 }

/- Linking and unlinking. A neighbour that does not exist is an end of the level. -/
def joinNext (pool : OrderPool) (lvl : Level) (prev slot : Slot) : OrderPool × Level :=
  if prev ≠ kInvalidSlot then (pool.modify prev (fun rec => { rec with next := slot }), lvl)
  else (pool, { lvl with head := slot })

def joinPrev (pool : OrderPool) (lvl : Level) (next slot : Slot) : OrderPool × Level :=
  if next ≠ kInvalidSlot then (pool.modify next (fun rec => { rec with prev := slot }), lvl)
  else (pool, { lvl with tail := slot })

def bypass (pool : OrderPool) (lvl : Level) (slot : Slot) : OrderPool × Level :=
  let joined := joinNext pool lvl (pool.get slot).prev (pool.get slot).next
  joinPrev joined.1 joined.2 (joined.1.get slot).next (joined.1.get slot).prev

def splice (pool : OrderPool) (lvl : Level) (oldSlot newSlot : Slot) : OrderPool × Level :=
  let joined := joinNext pool lvl (pool.get oldSlot).prev newSlot
  joinPrev joined.1 joined.2 (joined.1.get oldSlot).next newSlot

def withdraw (pool : OrderPool) (slot : Slot) : OrderPool :=
  pool.modify slot (fun rec =>
    { rec with isOpen := false, prev := kInvalidSlot, next := kInvalidSlot })

def markOccupied (book : OrderBook) (side : Side) (idx : UInt32) : OrderBook :=
  if (book.levelAt side idx).orderCount = 1 then book.putBitmap side ((book.bitmap side).set idx)
  else book

def improveBest (book : OrderBook) (side : Side) (idx : UInt32) : OrderBook :=
  let best := book.bestIndex side
  match side with
  | .buy => if best < 0 ∨ best < idx.toNat then book.putBest .buy idx.toNat else book
  | .sell => if best < 0 ∨ idx.toNat < best then book.putBest .sell idx.toNat else book

-- After a removal: a level that ran empty leaves the bitmap, and the best moves on.
def vacate (book : OrderBook) (side : Side) (idx : UInt32) : OrderBook :=
  if (book.levelAt side idx).orderCount = 0 then
    let book := book.putBitmap side ((book.bitmap side).clear idx)
    if book.bestIndex side = idx.toNat then book.putBest side (book.nextIndex side idx.toNat)
    else book
  else book

def addResting (pool : OrderPool) (book : OrderBook) (slot : Slot) (side : Side) (price : Int) :
    OrderPool × OrderBook :=
  let idx := UInt32.ofInt (book.priceToIndex price)
  let lvl := book.levelAt side idx
  let pool := pool.modify slot (fun rec =>
    { rec with
      side, price, levelIndex := idx, isOpen := true, prev := lvl.tail, next := kInvalidSlot })
  let joined := joinNext pool lvl lvl.tail slot
  let lvl := { joined.2 with
    tail := slot
    totalQty := joined.2.totalQty + (joined.1.get slot).openQty
    orderCount := joined.2.orderCount + 1 }
  (joined.1, improveBest (markOccupied (book.putLevel side idx lvl) side idx) side idx)

def removeResting (pool : OrderPool) (book : OrderBook) (slot : Slot) : OrderPool × OrderBook :=
  let side := (pool.get slot).side
  let idx := (pool.get slot).levelIndex
  let joined := bypass pool (book.levelAt side idx) slot
  let lvl := { joined.2 with
    totalQty := joined.2.totalQty - (joined.1.get slot).openQty
    orderCount := joined.2.orderCount - 1 }
  (withdraw joined.1 slot, vacate (book.putLevel side idx lvl) side idx)

def replaceInPlace (pool : OrderPool) (book : OrderBook) (oldSlot newSlot : Slot) :
    OrderPool × OrderBook :=
  let side := (pool.get oldSlot).side
  let idx := (pool.get oldSlot).levelIndex
  let old := pool.get oldSlot
  let pool := pool.modify newSlot (fun rec =>
    { rec with
      side, price := old.price, levelIndex := idx, isOpen := true, prev := old.prev,
      next := old.next })
  let joined := splice pool (book.levelAt side idx) oldSlot newSlot
  let lvl := { joined.2 with
    totalQty := joined.2.totalQty - (joined.1.get oldSlot).openQty +
      (joined.1.get newSlot).openQty }
  (withdraw joined.1 oldSlot, book.putLevel side idx lvl)

section Frame
variable (book : OrderBook) (side other : Side) (idx i : UInt32) (level : Level)
  (bits : LevelBitset) (best : Int)

theorem levelAtPutLevel : (book.putLevel side idx level).levelAt other i =
    if other = side ∧ i = idx then level else book.levelAt other i := by
  cases side <;> cases other <;>
    simp [putLevel, levelAt, levels, Buffer.readWrite, UInt32.toNat_inj]

@[simp] theorem levelAtPutBitmap :
    (book.putBitmap side bits).levelAt other i = book.levelAt other i := by
  cases side <;> cases other <;> rfl

@[simp] theorem levelAtPutBest :
    (book.putBest side best).levelAt other i = book.levelAt other i := by
  cases side <;> cases other <;> rfl

@[simp] theorem bitmapPutLevel :
    (book.putLevel side idx level).bitmap other = book.bitmap other := by
  cases side <;> cases other <;> rfl

theorem bitmapPutBitmap :
    (book.putBitmap side bits).bitmap other = if other = side then bits else book.bitmap other := by
  cases side <;> cases other <;> rfl

@[simp] theorem bitmapPutBest : (book.putBest side best).bitmap other = book.bitmap other := by
  cases side <;> cases other <;> rfl

@[simp] theorem bestIndexPutLevel :
    (book.putLevel side idx level).bestIndex other = book.bestIndex other := by
  cases side <;> cases other <;> rfl

@[simp] theorem bestIndexPutBitmap :
    (book.putBitmap side bits).bestIndex other = book.bestIndex other := by
  cases side <;> cases other <;> rfl

theorem bestIndexPutBest :
    (book.putBest side best).bestIndex other = if other = side then best
      else book.bestIndex other := by
  cases side <;> cases other <;> rfl

end Frame

/- The parts of a book that only `configure` sets. -/
structure SameFrame (book book' : OrderBook) : Prop where
  instrumentId : book'.instrumentId = book.instrumentId
  ladder : book'.ladder = book.ladder
  levels : ∀ side, (book'.levels side).size = (book.levels side).size
  words : ∀ side, (book'.bitmap side).words.size = (book.bitmap side).words.size

theorem sameFrameRefl (book : OrderBook) : SameFrame book book :=
  ⟨rfl, rfl, fun _ => rfl, fun _ => rfl⟩

theorem sameFrameTrans {a b c : OrderBook} (ab : SameFrame a b) (bc : SameFrame b c) :
    SameFrame a c :=
  ⟨bc.instrumentId.trans ab.instrumentId, bc.ladder.trans ab.ladder,
    fun side => (bc.levels side).trans (ab.levels side), fun side =>
    (bc.words side).trans (ab.words side)⟩

section Kept
variable (pool : OrderPool) (book : OrderBook) (side : Side) (slot : Slot)

theorem putLevelFrame (idx : UInt32) (level : Level) :
    SameFrame book (book.putLevel side idx level) := by
  cases side <;> exact ⟨rfl, rfl, fun s => by cases s <;> rfl, fun s => by cases s <;> rfl⟩

theorem putBestFrame (best : Int) : SameFrame book (book.putBest side best) := by
  cases side <;> exact ⟨rfl, rfl, fun s => by cases s <;> rfl, fun s => by cases s <;> rfl⟩

theorem putBitmapFrame (bits : LevelBitset) (same : bits.words.size =
    (book.bitmap side).words.size) : SameFrame book (book.putBitmap side bits) := by
  cases side <;> refine ⟨rfl, rfl, fun s => by cases s <;> rfl, fun s => ?_⟩ <;> cases s
  all_goals first | exact same | rfl

theorem markOccupiedFrame (idx : UInt32) : SameFrame book (markOccupied book side idx) := by
  unfold markOccupied
  split
  · exact putBitmapFrame _ _ _ rfl
  · exact sameFrameRefl book

theorem improveBestFrame (idx : UInt32) : SameFrame book (improveBest book side idx) := by
  unfold improveBest
  cases side <;> simp only <;> split
  all_goals first | exact putBestFrame .. | exact sameFrameRefl book

theorem vacateFrame (idx : UInt32) : SameFrame book (vacate book side idx) := by
  unfold vacate
  split
  · have cleared := putBitmapFrame book side ((book.bitmap side).clear idx) rfl
    simp only
    split
    · exact sameFrameTrans cleared (putBestFrame ..)
    · exact cleared
  · exact sameFrameRefl book

theorem addRestingFrame (price : Int) : SameFrame book (addResting pool book slot side price).2 :=
  sameFrameTrans (sameFrameTrans (putLevelFrame ..) (markOccupiedFrame ..)) (improveBestFrame ..)

theorem removeRestingFrame : SameFrame book (removeResting pool book slot).2 :=
  sameFrameTrans (putLevelFrame ..) (vacateFrame ..)

theorem replaceInPlaceFrame (newSlot : Slot) :
    SameFrame book (replaceInPlace pool book slot newSlot).2 :=
  putLevelFrame ..

theorem joinNextSize (lvl : Level) (prev : Slot) :
    (joinNext pool lvl prev slot).1.size = pool.size := by
  unfold joinNext
  split <;> rfl

theorem joinPrevSize (lvl : Level) (next : Slot) :
    (joinPrev pool lvl next slot).1.size = pool.size := by
  unfold joinPrev
  split <;> rfl

theorem addRestingSize (price : Int) :
    (addResting pool book slot side price).1.size = pool.size := by
  simp only [addResting, joinNextSize, OrderPool.sizeModify]

theorem removeRestingSize : (removeResting pool book slot).1.size = pool.size := by
  simp only [removeResting, bypass, withdraw, joinNextSize, joinPrevSize, OrderPool.sizeModify]

theorem replaceInPlaceSize (newSlot : Slot) :
    (replaceInPlace pool book slot newSlot).1.size = pool.size := by
  simp only [replaceInPlace, splice, withdraw, joinNextSize, joinPrevSize, OrderPool.sizeModify]

end Kept
end OrderBook
end Xmatch
