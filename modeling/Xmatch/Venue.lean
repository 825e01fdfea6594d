import Xmatch.Api
import Xmatch.TickTable

/-! What the engine is for: a venue that keeps, for each instrument, two plain lists of
open orders, best price first and oldest first, and matches by scanning them. All
arithmetic is exact. How a fill-or-kill order is judged is a parameter: the venue with
`exactFill` is the reference, the one with `wrappedFill` adds quantities in 32 bits. -/
namespace Xmatch

structure Order where
  id : OrderId
  price : Int
  openQty : Nat
  filledQty : Nat
  deriving DecidableEq, Repr

structure Book where
  instrumentId : InstrumentId
  bandLo : Int
  bandHi : Int
  bids : List Order
  asks : List Order
  deriving DecidableEq, Repr

/- `traded` keeps the fills of every id ever used; no operation reads it. -/
structure Venue where
  configured : Bool := false
  books : List Book := []
  spent : List OrderId := []
  traded : OrderId → Nat := fun _ => 0
  nextTradeId : Nat := 1

/- A callback of the venue: the event, the venue while it is delivered, and the order
that is being worked, if any. -/
structure Moment where
  event : Event
  venue : Venue
  working : Option Order := none

/- Price `a` has priority over price `b` among resting orders of the side. -/
def Side.better : Side → Int → Int → Prop
  | .buy, a, b => b < a
  | .sell, a, b => a < b

instance (side : Side) (a b : Int) : Decidable (side.better a b) := by
  cases side <;> exact inferInstanceAs (Decidable (_ < _))

/- An aggressor of the side with this limit trades at `price`; no limit takes any price. -/
def Side.accepts (side : Side) (limit : Option Int) (price : Int) : Bool :=
  match limit with
  | none => true
  | some limit =>
    match side with
    | .buy => decide (price ≤ limit)
    | .sell => decide (limit ≤ price)

namespace Order

def fill (order : Order) (qty : Nat) : Order :=
  { order with openQty := order.openQty - qty, filledQty := order.filledQty + qty }

end Order

namespace Book

def side (book : Book) : Side → List Order
  | .buy => book.bids
  | .sell => book.asks

def put (book : Book) (side : Side) (orders : List Order) : Book :=
  match side with
  | .buy => { book with bids := orders }
  | .sell => { book with asks := orders }

def top (orders : List Order) : Int × Nat :=
  match orders with
  | [] => (0, 0)
  | first :: _ =>
    (first.price, ((orders.filter (fun o => o.price = first.price)).map (·.openQty)).sum)

def find (book : Book) (id : OrderId) : Option (Side × Order) :=
  match book.bids.find? (fun o => o.id = id) with
  | some order => some (.buy, order)
  | none => (book.asks.find? (fun o => o.id = id)).map (fun order => (.sell, order))

end Book

-- Behind every order that is at least as good.
def enqueue (side : Side) (order : Order) : List Order → List Order
  | [] => [order]
  | first :: rest =>
    if side.better order.price first.price then order :: first :: rest
    else first :: enqueue side order rest

def without (id : OrderId) (orders : List Order) : List Order := orders.filter (fun o => o.id ≠ id)

def instead (id : OrderId) (order : Order) (orders : List Order) : List Order :=
  orders.map (fun o => if o.id = id then order else o)

def eligible (side : Side) (limit : Option Int) (orders : List Order) : List Order :=
  orders.filter (fun o => side.accepts limit o.price)

def quantityOf (orders : List Order) : Nat := (orders.map (·.openQty)).sum

def atLeastAsGood (side : Side) (price : Int) (orders : List Order) : List Order :=
  orders.filter (fun o => !decide (side.better price o.price))

abbrev Feasible := Side → Option Int → Nat → List Order → Bool

def exactFill : Feasible := fun side limit qty orders =>
    decide (qty ≤ quantityOf (eligible side limit orders))

-- The sum is taken level by level in 32 bits and compared after each level.
def wrappedFill : Feasible := fun side limit qty orders =>
  (eligible side limit orders).any (fun o =>
    decide (qty ≤
      quantityOf (atLeastAsGood side.opposite o.price (eligible side limit orders)) % 2 ^ 32))

namespace Venue

def putSide (venue : Venue) (b : Nat) (side : Side) (orders : List Order) : Venue :=
  { venue with books := venue.books.modify b (fun book => book.put side orders) }

def orders (venue : Venue) (b : Nat) (side : Side) : List Order :=
  ((venue.books[b]?).map (fun book => book.side side)).getD []

def bump (venue : Venue) (id : OrderId) (qty : Nat) : Venue :=
  { venue with
    traded := fun other => if other = id then venue.traded other + qty else venue.traded other }

def spend (venue : Venue) (id : OrderId) (filled : Nat) : Venue :=
  { venue with
    spent := id :: venue.spent
    traded := fun other => if other = id then filled else venue.traded other }

structure Sweep where
  venue : Venue
  taker : Order
  opposite : List Order

def tradeMoment (instrumentId : InstrumentId) (side : Side) (maker : Order) (venue : Venue)
    (taker : Order) : Moment :=
  { event := .trade venue.nextTradeId instrumentId maker.price (min taker.openQty maker.openQty)
      maker.id taker.id side
    venue := { venue with nextTradeId := venue.nextTradeId + 1 }
    working := some taker }

def tradeStep (b : Nat) (side : Side) (maker : Order) (rest : List Order) (venue : Venue)
    (taker : Order) : Sweep :=
  let qty := min taker.openQty maker.openQty
  let opposite := if maker.openQty ≤ taker.openQty then rest else maker.fill qty :: rest
  { venue := (({ venue with nextTradeId := venue.nextTradeId + 1 }.putSide b side.opposite
      opposite).bump maker.id qty).bump taker.id qty
    taker := taker.fill qty
    opposite }

def sweep (b : Nat) (instrumentId : InstrumentId) (side : Side) (limit : Option Int) :
    List Order → Venue → Order → List Moment × Sweep
  | [], venue, taker => ([], ⟨venue, taker, []⟩)
  | maker :: rest, venue, taker =>
    if 0 < taker.openQty ∧ side.accepts limit maker.price then
      let next := tradeStep b side maker rest venue taker
      let moment := tradeMoment instrumentId side maker venue taker
      if maker.openQty ≤ taker.openQty then
        let swept := sweep b instrumentId side limit rest next.venue next.taker
        (moment :: swept.1, swept.2)
      else ([moment], next)
    else ([], ⟨venue, taker, maker :: rest⟩)

def reject (id : OrderId) (reason : RejectReason) (venue : Venue) : List Moment × Venue :=
  ([{ event := .rejected id reason, venue }], venue)

def outsideBand (book : Book) (price : Int) : Bool :=
  decide (price < book.bandLo ∨ book.bandHi < price)

def invalid (book : Book) (order : NewOrder) : Option RejectReason :=
  if order.quantity = 0 then some .invalidQuantity
  else if order.type = .market ∧ order.tif = .day then some .invalidTimeInForce
  else if order.type ≠ .market then
    if !TickTable.isTickAligned kTickSchedule order.price then some .invalidPriceTick
    else if outsideBand book order.price then some .priceOutOfBand
    else none
  else none

def remainderReason (order : NewOrder) : CancelReason :=
  if order.type = .market then .noLiquidity
  else if order.tif = .ioc then .iocRemainder else .fokUnfillable

def dispose (b : Nat) (order : NewOrder) (swept : List Moment × Sweep) : List Moment × Venue :=
  let venue := swept.2.venue
  let taker := swept.2.taker
  if 0 < taker.openQty then
    if order.tif = .day then
      (swept.1, venue.putSide b order.side (enqueue order.side taker (venue.orders b order.side)))
    else
      (swept.1 ++
        [{ event := .canceled order.orderId taker.openQty (remainderReason order), venue }], venue)
  else (swept.1, venue)

def limitOf (order : NewOrder) : Option Int :=
  if order.type = .market then none else some order.price

def takerOf (order : NewOrder) : Order :=
  { id := order.orderId, price := (limitOf order).getD 0, openQty := order.quantity.toNat,
    filledQty := 0 }

def execute (feasible : Feasible) (b : Nat) (order : NewOrder) (venue : Venue) :
    List Moment × Venue :=
  let opposite := venue.orders b order.side.opposite
  if order.tif = .fok ∧ !feasible order.side (limitOf order) order.quantity.toNat opposite then
    ([{ event := .canceled order.orderId order.quantity.toNat .fokUnfillable, venue }], venue)
  else
    dispose b order (sweep b order.instrumentId order.side (limitOf order) opposite venue
      (takerOf order))

def submit (feasible : Feasible) (order : NewOrder) (venue : Venue) : List Moment × Venue :=
  if !venue.configured then reject order.orderId .notConfigured venue
  else match venue.books.findIdx? (fun book => book.instrumentId = order.instrumentId) with
    | none => reject order.orderId .unknownInstrument venue
    | some b =>
      if order.orderId ∈ venue.spent then reject order.orderId .duplicateOrderId venue
      else
        let venue := venue.spend order.orderId 0
        match (venue.books[b]?).bind (fun book => invalid book order) with
        | some reason => reject order.orderId reason venue
        | none =>
          let executed := execute feasible b order venue
          ({ event := .accepted order.orderId, venue } :: executed.1, executed.2)

def findFrom (id : OrderId) : Nat → List Book → Option (Nat × Side × Order)
  | _, [] => none
  | b, book :: rest =>
    match book.find id with
    | some (side, order) => some (b, side, order)
    | none => findFrom id (b + 1) rest

def findOpen (venue : Venue) (id : OrderId) : Option (Nat × Side × Order) :=
  findFrom id 0 venue.books

def withdraw (b : Nat) (side : Side) (id : OrderId) (venue : Venue) : Venue :=
  venue.putSide b side (without id (venue.orders b side))

def cancelOrder (b : Nat) (side : Side) (order : Order) (venue : Venue) : List Moment × Venue :=
  let venue := venue.withdraw b side order.id
  ([{ event := .canceled order.id order.openQty .userRequested, venue }], venue)

def cancel (request : CancelOrder) (venue : Venue) : List Moment × Venue :=
  if !venue.configured then reject request.orderId .notConfigured venue
  else match venue.findOpen request.orderId with
    | none => reject request.orderId .unknownOrder venue
    | some (b, side, order) => cancelOrder b side order venue

def replacement (request : ReplaceOrder) (old : Order) : Order :=
  { id := request.newOrderId, price := request.newPrice,
    openQty := request.newQuantity.toNat - old.filledQty, filledQty := old.filledQty }

def replacedMoment (request : ReplaceOrder) (fresh : Order) (venue : Venue)
    (working : Option Order) : Moment :=
  { event := .replaced request.orderId request.newOrderId request.newPrice fresh.openQty,
    venue, working }

def requeue (request : ReplaceOrder) (b : Nat) (side : Side) (old : Order) (venue : Venue) :
    List Moment × Venue :=
  let fresh := replacement request old
  let venue := venue.withdraw b side old.id
  let instrumentId := ((venue.books[b]?).map (·.instrumentId)).getD 0
  let swept :=
    if request.newPrice ≠ old.price then
      sweep b instrumentId side (some request.newPrice) (venue.orders b side.opposite) venue fresh
    else ([], ⟨venue, fresh, venue.orders b side.opposite⟩)
  let moments := replacedMoment request fresh venue (some fresh) :: swept.1
  let venue := swept.2.venue
  if 0 < swept.2.taker.openQty then
    (moments, venue.putSide b side (enqueue side swept.2.taker (venue.orders b side)))
  else (moments, venue)

def replaceOrder (request : ReplaceOrder) (b : Nat) (side : Side) (old : Order) (venue : Venue) :
    List Moment × Venue :=
  let fresh := replacement request old
  let venue := venue.spend request.newOrderId old.filledQty
  if request.newPrice ≠ old.price ∨ old.openQty < fresh.openQty then
    requeue request b side old venue
  else
    let venue := venue.putSide b side (instead old.id fresh (venue.orders b side))
    ([replacedMoment request fresh venue none], venue)

def replace (request : ReplaceOrder) (venue : Venue) : List Moment × Venue :=
  if !venue.configured then reject request.newOrderId .notConfigured venue
  else match venue.findOpen request.orderId with
    | none => reject request.newOrderId .unknownOrder venue
    | some (b, side, old) =>
      if (replacement request old).openQty = 0 then cancelOrder b side old venue
      else if request.newOrderId ≠ request.orderId ∧ request.newOrderId ∈ venue.spent then
        reject request.newOrderId .duplicateOrderId venue
      else if !TickTable.isTickAligned kTickSchedule request.newPrice then
        reject request.newOrderId .invalidPriceTick venue
      else if ((venue.books[b]?).map (fun book => outsideBand book request.newPrice)).getD true then
        reject request.newOrderId .priceOutOfBand venue
      else replaceOrder request b side old venue

def perform (feasible : Feasible) (request : Request) (venue : Venue) : List Moment × Venue :=
  match request with
  | .submit order => submit feasible order venue
  | .cancel request => cancel request venue
  | .replace request => replace request venue

def topOfBook (venue : Venue) (id : InstrumentId) : Int × Nat × Int × Nat :=
  match venue.books.find? (fun book => book.instrumentId = id) with
  | none => (0, 0, 0, 0)
  | some book =>
    ((Book.top book.bids).1, (Book.top book.bids).2, (Book.top book.asks).1, (Book.top book.asks).2)

end Venue
end Xmatch
