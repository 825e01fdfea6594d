import Xmatch.FillOrKill
import Xmatch.Rejections
import Xmatch.Uncrossed
import Xmatch.WellFormed

/-! A replace that loses its place in the queue is a cancel and a new Day order. -/
namespace Xmatch

namespace Venue

theorem sweepNothing {b : Nat} {instrumentId : InstrumentId} {side : Side} {limit : Option Int}
    {orders : List Order} {venue : Venue} {taker : Order}
    (refused : ∀ o ∈ orders, side.accepts limit o.price = false) :
    sweep b instrumentId side limit orders venue taker = ([], ⟨venue, taker, orders⟩) := by
  cases orders with
  | nil => rfl
  | cons maker rest => exact sweepRefused (refused maker List.mem_cons_self)

/- The same orders in the same places, but for what they have filled; and the same next trade. -/
structure SamePlaces (left right : Venue) : Prop where
  orders : ∀ b side, (left.orders b side).map Order.bare = (right.orders b side).map Order.bare
  trades : left.nextTradeId = right.nextTradeId

section Places
variable {left right : Venue} {b : Nat} {side : Side} {order order' : Order}

theorem enqueueBare (same : order.bare = order'.bare) (xs : List Order) :
    (enqueue side order xs).map Order.bare = (enqueue side order' xs).map Order.bare := by
  have price : order.price = order'.price := congrArg (·.2.1) same
  induction xs with
  | nil => simp only [enqueue, List.map_cons, List.map_nil, same]
  | cons first rest ih =>
    simp only [enqueue, price]
    split
    · simp only [List.map_cons, same]
    · simp only [List.map_cons, ih]

theorem twinPlaces {mine : OrderId → Prop} (twin : Twin id (fun _ => True) mine left right) :
    SamePlaces left right := by
  refine ⟨fun b side => by rw [twin.orders b trivial side], ?_⟩
  have next := twin.trades 0
  simpa using next

theorem restPlaces {mine : OrderId → Prop} (twin : Twin id (fun _ => True) mine left right)
    (same : order.bare = order'.bare) (b : Nat) (side : Side) :
    SamePlaces (left.putSide b side (enqueue side order (left.orders b side)))
      (right.putSide b side (enqueue side order' (right.orders b side))) := by
  refine ⟨fun c s => ?_, (twinPlaces twin).trades⟩
  rw [ordersPutSide, ordersPutSide, twinLength twin, twin.orders b trivial side]
  split
  · exact enqueueBare same _
  · rw [twin.orders c trivial s]

end Places

def freshOrder (request : ReplaceOrder) (instrumentId : InstrumentId) (side : Side)
    (quantity : Quantity) : NewOrder :=
  { orderId := request.newOrderId, instrumentId, side, type := .limit, tif := .day,
    price := request.newPrice, quantity }

theorem invalidFrame {book book' : Book} (same : book'.frame = book.frame) (order : NewOrder) :
    invalid book' order = invalid book order := by
  have framed : ∀ book : Book, invalid book order =
      invalid ⟨book.frame.1, book.frame.2.1, book.frame.2.2, [], []⟩ order := fun _ => rfl
  rw [framed book', framed book, same]

section Requeue
variable {venue : Venue} {request : ReplaceOrder} {b : Nat} {side : Side} {old : Order}
  {book : Book} {quantity : Quantity}

theorem freshValid (replacing : Replacing venue request b side old book)
    (exact : quantity.toNat = (replacement request old).openQty) :
    invalid book (freshOrder request book.instrumentId side quantity) = none := by
  have positive : quantity ≠ 0 := by
    rintro rfl
    have := replacing.positive
    rw [← exact] at this
    contradiction
  simp [invalid, freshOrder, positive, replacing.aligned, replacing.inBand]

theorem freshFresh (replacing : Replacing venue request b side old book)
    (index : venue.books.findIdx? (fun other => other.instrumentId = book.instrumentId) = some b)
    (unused : request.newOrderId ∉ venue.spent) :
    ∃ book', Fresh (venue.withdraw b side old.id)
      (freshOrder request book.instrumentId side quantity) b book' ∧
      book'.frame = book.frame := by
  have frames : (venue.withdraw b side old.id).books.map Book.frame =
      venue.books.map Book.frame := framesPut ..
  have same : ((venue.withdraw b side old.id).books[b]?).map Book.frame = some book.frame := by
    rw [← List.getElem?_map, frames, List.getElem?_map, replacing.here]
    rfl
  obtain ⟨book', here, frame⟩ := Option.map_eq_some_iff.mp same
  refine ⟨book', ⟨replacing.configured, ?_, here, unused⟩, frame⟩
  rw [frameIndex, frames, ← frameIndex]
  exact index

theorem settlePlaces {mine : OrderId → Prop} {one two : Sweep}
    (twin : Twin id (fun _ => True) mine one.venue two.venue)
    (same : one.taker.bare = two.taker.bare) :
    SamePlaces (settle b side one) (settle b side two) := by
  have quantities : one.taker.openQty = two.taker.openQty := congrArg (·.2.2) same
  simp only [settle, quantities]
  split
  · exact restPlaces twin same b side
  · exact twinPlaces twin

theorem daySettles {order : NewOrder} (day : order.tif = .day) (venue : Venue) :
    execute wrappedFill b order venue =
      ((work b order venue).1, settle b order.side (work b order venue).2) := by
  change (if order.tif = .fok ∧ _ then _ else dispose b order (work b order venue)) = _
  simp only [day, reduceCtorEq, false_and, if_false, dispose, if_true, settle]
  split
  · rfl
  · rfl

theorem withdrawFrames (venue : Venue) (b : Nat) (side : Side) (id : OrderId) :
    (venue.withdraw b side id).books.map Book.frame = venue.books.map Book.frame := framesPut ..

theorem requeueInstrument (replacing : Replacing venue request b side old book) :
    ((((venue.spend request.newOrderId old.filledQty).withdraw b side old.id).books[b]?).map
      (·.instrumentId)).getD 0 =
      book.instrumentId := by
  rw [frameInstrument, withdrawFrames, List.getElem?_map]
  exact congrArg (fun here => ((here.map Book.frame).map (·.1)).getD 0) replacing.here

/- A replace sweeps at its new price, moved or not: at the old price nothing is met. -/
theorem requeueSweeps (uncrossed : Uncrossed venue)
    (replacing : Replacing venue request b side old book) (start : Venue)
    (same : start = (venue.spend request.newOrderId old.filledQty).withdraw b side old.id) :
    requeue request b side old (venue.spend request.newOrderId old.filledQty) =
      (replacedMoment request (replacement request old) start (some (replacement request old)) ::
          (sweep b book.instrumentId side (some request.newPrice) (start.orders b side.opposite)
            start (replacement request old)).1,
        settle b side
          (sweep b book.instrumentId side (some request.newPrice) (start.orders b side.opposite)
            start (replacement request old)).2) := by
  subst same
  rw [requeueEqSettle, requeueSweep, requeueInstrument replacing]
  by_cases moved : request.newPrice ≠ old.price
  · rw [if_pos moved]
  · have still : request.newPrice = old.price := not_not.mp moved
    have resting : old ∈ venue.orders b side := (findOpenRests replacing.found).2.1
    rw [if_neg moved, sweepNothing (fun other member => ?_)]
    obtain ⟨o, here, _, price⟩ := withdrawWithin _ _ _ _ b side.opposite other member
    rw [still, ← price]
    exact uncrossedIff.mp uncrossed b side old resting o here

structure SameCourse (request : ReplaceOrder) (quantity : Nat)
    (replaced submitted : List Moment × Venue) : Prop where
  trades : ∃ trades : List Event,
    replaced.1.map (·.event) = .replaced request.orderId request.newOrderId request.newPrice
    quantity :: trades ∧
      submitted.1.map (·.event) = .accepted request.newOrderId :: trades
  places : SamePlaces replaced.2 submitted.2

theorem requeueIsFresh (uncrossed : Uncrossed venue)
    (replacing : Replacing venue request b side old book)
    (index : venue.books.findIdx? (fun other => other.instrumentId = book.instrumentId) = some b)
    (unused : request.newOrderId ∉ venue.spent)
    (exact : quantity.toNat = (replacement request old).openQty) :
    SameCourse request quantity.toNat
      (requeue request b side old (venue.spend request.newOrderId old.filledQty))
      (perform wrappedFill (.submit (freshOrder request book.instrumentId side quantity))
        (venue.withdraw b side old.id)) := by
  obtain ⟨book', fresh, frame⟩ :=
    @freshFresh venue request b side old book quantity replacing index unused
  have valid : invalid book' (freshOrder request book.instrumentId side quantity) = none :=
    (invalidFrame frame _).trans (freshValid replacing exact)
  have twin : Twin id (fun _ => True) (fun _ => True)
      ((venue.spend request.newOrderId old.filledQty).withdraw b side old.id)
      ((venue.withdraw b side old.id).spend request.newOrderId 0) :=
    ⟨rfl, rfl, fun _ _ _ => rfl, fun _ _ => Iff.rfl, fun _ => rfl⟩
  have bare : (replacement request old).bare =
      (takerOf (freshOrder request book.instrumentId side quantity)).bare := by
    simp only [Order.bare, replacement, takerOf, freshOrder, limitOf, reduceCtorEq, if_false,
      Option.getD_some, Prod.mk.injEq, true_and]
    exact exact.symm
  obtain ⟨alike, left, _⟩ := @twinSweep id (fun _ => True) (fun _ => True) b side book.instrumentId
    (some request.newPrice)
    ((venue.withdraw b side old.id).orders b side.opposite) _ _ _ _ twin bare
  rw [requeueSweeps uncrossed replacing _ rfl, submitValid fresh valid]
  rw [daySettles rfl]
  have traded := alike.events
  simp only [Event.renumberId] at traded
  refine ⟨⟨_, ?_, congrArg (List.cons (Event.accepted request.newOrderId)) traded.symm⟩,
    settlePlaces alike.twin left⟩
  simp only [List.map_cons, replacedMoment, exact]
  rfl

end Requeue

end Venue

namespace Engine
open OrderBook Effect

structure Located (engine : Engine) (venue : Venue) (id : OrderId) (slot : Slot) (b : Nat)
    (book : Book) : Prop where
  inside : b < engine.books.size
  found : venue.findOpen id = some (b, (engine.pool.get slot).side, (engine.pool.get slot).order)
  here : venue.books[b]? = some book
  own : engine.bookOf slot = b
  instrument : book.instrumentId = (engine.pool.get slot).instrumentId
  index : venue.books.findIdx? (fun other => other.instrumentId = book.instrumentId) = some b

structure ReplaceValid (engine : Engine) (request : ReplaceOrder) (slot : Slot) : Prop where
  found : engine.findOpen request.orderId = some slot
  positive : replacementOpen request (engine.pool.get slot) ≠ 0
  unused : request.newOrderId ≠ request.orderId →
    engine.orderIndex.contains request.newOrderId = false
  aligned : TickTable.isTickAligned kTickSchedule request.newPrice = true
  inBand : 0 ≤ (engine.books.read (engine.bookOf slot)).priceToIndex request.newPrice

section Locating
variable {engine : Engine} {venue : Venue} {id : OrderId} {slot : Slot} {request : ReplaceOrder}
  {b : Nat} {book : Book}

theorem located (sim : Sim engine venue) (found : engine.findOpen id = some slot) :
    ∃ b book, Located engine venue id slot b book := by
  have start := sim
  obtain ⟨queues, rep, _, view⟩ := sim
  obtain ⟨b, side, level, rests⟩ := findOpenSome rep found
  have home := (rep.shape b rests.inside).home side level slot rests.member
  have place := venueFindSome rep view rests.inside rests.member
  rw [rests.named, ← home.side] at place
  refine ⟨b, _, rests.inside, place, bookAt view rests.inside, rests.book, home.instrumentId.symm,
    ?_⟩
  rw [simBook start]
  exact findBookOf rep rests.inside

theorem simUnused {id : OrderId} (sim : Sim engine venue)
    (unused : engine.orderIndex.contains id = false) : id ∉ venue.spent := by
  obtain ⟨_, _, _, view⟩ := sim
  intro spent
  exact Bool.false_ne_true (unused.symm.trans ((containsSpent view id).mpr spent))

theorem openConfigured (actions : List Action) (found : (after actions).findOpen id = some slot)
    (sim : Sim (after actions) venue) : venue.configured = true := by
  rw [simConfigured sim]
  by_contra unconfigured
  have blank := blankUntilConfigured actions (by simpa using unconfigured)
  obtain ⟨b, _, place⟩ := located sim found
  have inside := place.inside
  rw [blank] at inside
  exact absurd inside (Nat.not_lt_zero b)

theorem replacementEqOpen (request : ReplaceOrder) (record : OrderRecord) :
    (Venue.replacement request record.order).openQty = (replacementOpen request record).toNat :=
  (replacementExact request record).symm

theorem simReplacing (sim : Sim engine venue) (configured : venue.configured = true)
    (valid : ReplaceValid engine request slot)
    (place : Located engine venue request.orderId slot b book) :
    Venue.Replacing venue request b (engine.pool.get slot).side
      (engine.pool.get slot).order book := by
  have band : Venue.outsideBand book request.newPrice = false := by
    obtain ⟨queues, rep, _, view⟩ := sim
    have nonneg := valid.inBand
    rw [place.own] at nonneg
    cases Option.some.inj (place.here.symm.trans (bookAt view place.inside))
    rcases @pricedOr engine queues b (rep.fitted b place.inside) request.newPrice
      valid.aligned with ⟨_, negative⟩ | ⟨within, _⟩
    · exact absurd nonneg (Int.not_le.mpr negative)
    · exact within
  refine ⟨configured, place.found, place.here, ?_, fun other spent => ?_, valid.aligned, band⟩
  · rw [replacementEqOpen]
    exact Nat.pos_of_ne_zero (fun zero => valid.positive (UInt32.toNat_inj.mp zero))
  · exact simUnused sim (valid.unused other) spent

end Locating

def shownOrder (pool : OrderPool) (slot : Slot) : OrderId × Quantity :=
  ((pool.get slot).id, (pool.get slot).openQty)

/- One book in two engines: the same orders at every level in the same places, and the same
aggregates, bitmaps and best indices. -/
structure SameBook (one two : Engine) (b : Nat) : Prop where
  instrumentId : (one.books.read b).instrumentId = (two.books.read b).instrumentId
  ladder : (one.books.read b).ladder = (two.books.read b).ladder
  queue : ∀ side, ∀ i < (one.books.read b).levelCount,
    (levelSlots one b side i).map (shownOrder one.pool) =
    (levelSlots two b side i).map (shownOrder two.pool)
  totalQty : ∀ side, ∀ i < (one.books.read b).levelCount,
    ((one.books.read b).levelAt side (UInt32.ofNat i)).totalQty =
    ((two.books.read b).levelAt side (UInt32.ofNat i)).totalQty
  orderCount : ∀ side, ∀ i < (one.books.read b).levelCount,
    ((one.books.read b).levelAt side (UInt32.ofNat i)).orderCount =
    ((two.books.read b).levelAt side (UInt32.ofNat i)).orderCount
  bitmap : ∀ side, (one.books.read b).bitmap side = (two.books.read b).bitmap side
  best : ∀ side, (one.books.read b).bestIndex side = (two.books.read b).bestIndex side

structure SameBooks (one two : Engine) : Prop where
  size : one.books.size = two.books.size
  books : ∀ b < one.books.size, SameBook one two b

section Comparing
variable {one two : Engine} {left right : Venue}

theorem bareFilter (price : Int) {xs ys : List Order}
    (same : xs.map Order.bare = ys.map Order.bare) :
    (xs.filter (fun o => o.price = price)).map Order.bare =
      (ys.filter (fun o => o.price = price)).map Order.bare := by
  have commutes : ∀ zs : List Order, (zs.filter (fun o => o.price = price)).map Order.bare =
      (zs.map Order.bare).filter (fun bare => bare.2.1 = price) := fun zs => by
    rw [List.filter_map]
    rfl
  rw [commutes, commutes, same]

theorem queuesBare {queues queues' : Nat → Queues} {b : Nat} (rep : Rep one queues)
    (rep' : Rep two queues') (view : View one queues left 0) (view' : View two queues' right 0)
    (places : Venue.SamePlaces left right) (frame : SameFrame (one.books.read b) (two.books.read b))
    (inside : b < one.books.size) (inside' : b < two.books.size) (side : Side) (i : Nat) :
    ((queues b side i).map (viewOrder one.pool)).map Order.bare =
      ((queues' b side i).map (viewOrder two.pool)).map Order.bare := by
  have shape := rep.shape b inside
  have shape' := rep'.shape b inside'
  have count : (two.books.read b).levelCount = (one.books.read b).levelCount :=
    congrArg (·.size.toNat) frame.ladder
  by_cases level : i < (one.books.read b).levelCount
  · have price : (two.books.read b).indexToPrice (UInt32.ofNat i) =
        (one.books.read b).indexToPrice (UInt32.ofNat i) := by
      rw [indexToPrice, frame.ladder]
      rfl
    rw [← viewLevel (rep.fitted b inside) shape level side,
      ← viewLevel (rep'.fitted b inside') shape' (by omega) side, price, ← ordersAt view inside,
      ← ordersAt view' inside']
    exact bareFilter _ (places.orders b side)
  · rw [shape.beyond side i (by omega), shape'.beyond side i (by omega)]
    rfl

theorem bareShown {pool pool' : OrderPool} {slots slots' : List Slot}
    (same : (slots.map (viewOrder pool)).map Order.bare =
      (slots'.map (viewOrder pool')).map Order.bare) :
    slots.map (shownOrder pool) = slots'.map (shownOrder pool') := by
  have shown : ∀ (pool : OrderPool) (slots : List Slot), slots.map (shownOrder pool) =
      ((slots.map (viewOrder pool)).map Order.bare).map
      (fun bare => (bare.1, UInt32.ofNat bare.2.2)) := by
    intro pool slots
    rw [List.map_map, List.map_map]
    exact List.map_congr_left (fun slot _ => by simp [shownOrder, Order.bare, viewOrder])
  rw [shown, shown, same]

theorem bareOpen {pool pool' : OrderPool} {slots slots' : List Slot}
    (same : (slots.map (viewOrder pool)).map Order.bare =
      (slots'.map (viewOrder pool')).map Order.bare) :
    pool.openIn slots = pool'.openIn slots' := by
  have sums : ∀ (pool : OrderPool) (slots : List Slot), pool.openIn slots =
      (((slots.map (viewOrder pool)).map Order.bare).map (·.2.2)).sum := by
    intro pool slots
    rw [List.map_map, List.map_map]
    rfl
  rw [sums, sums, same]

theorem sameBooks (grown : ∀ b, SameFrame (one.books.read b) (two.books.read b))
    (size : two.books.size = one.books.size) (simOne : Sim one left) (simTwo : Sim two right)
    (places : Venue.SamePlaces left right) : SameBooks one two := by
  obtain ⟨queues, rep, _, view⟩ := simOne
  obtain ⟨queues', rep', _, view'⟩ := simTwo
  refine ⟨size.symm, fun b inside => ?_⟩
  have inside' : b < two.books.size := by omega
  have frame := grown b
  have shape := rep.shape b inside
  have shape' := rep'.shape b inside'
  have count : (two.books.read b).levelCount = (one.books.read b).levelCount :=
    congrArg (·.size.toNat) frame.ladder
  have bare := queuesBare rep rep' view view' places frame inside inside'
  have taken : ∀ side i, queues b side i ≠ [] ↔ queues' b side i ≠ [] := fun side i => by
    have lengths := congrArg List.length (bare side i)
    simp only [List.length_map] at lengths
    rw [← List.length_pos_iff, ← List.length_pos_iff, lengths]
  refine ⟨frame.instrumentId.symm, frame.ladder.symm, fun side i level => ?_,
    fun side i level => ?_, fun side i level => ?_, fun side => ?_, fun side => ?_⟩
  · rw [levelSlotsEqQueue rep inside level, levelSlotsEqQueue rep' inside' (by omega)]
    exact bareShown (bare side i)
  · rw [shape.total side i level, shape'.total side i (by omega), bareOpen (bare side i)]
  · have lengths := congrArg List.length (bare side i)
    simp only [List.length_map] at lengths
    rw [shape.count side i level, shape'.count side i (by omega), lengths]
  · refine LevelBitset.hasExt (frame.words side).symm (fun i => ?_)
    rw [Bool.eq_iff_iff, shape.bits side i, shape'.bits side i]
    exact taken side i
  · have other := LevelBitset.nearestCongr (fun i => (taken side i).symm) (shape'.best side)
    exact LevelBitset.nearestUnique (fun _ _ => Side.aheadAntisymm) (shape.best side) other

end Comparing

section Requeueing
variable {engine : Engine} {venue : Venue} {request : ReplaceOrder} {slot : Slot}

theorem emitEnds {env : Env} {event : Event} {s : Session} {P : Engine → Prop}
    (holds : P s.engine) :
    wp (emit env event) (fun _ t => P t.engine) (fun _ t => P t.engine) s := by
  simp only [emit, wpBind, wpModify, wpGet, wpIte, wpThrow, wpPure, holds, implies_true, and_self]

theorem cancelSize (env : Env) (request : CancelOrder) (engine : Engine) :
    (call env (.cancel request) engine).engine.pool.size = engine.pool.size := by
  refine callEnds (P := fun t => t.engine.pool.size = engine.pool.size) ?_
  simp only [perform, cancel, current, wpBind, wpGet, wpPure, wpIte]
  refine ⟨fun _ => emitEnds (P := fun e => e.pool.size = engine.pool.size) rfl, fun _ => ?_⟩
  cases engine.findOpen request.orderId with
  | none => exact emitEnds (P := fun e => e.pool.size = engine.pool.size) rfl
  | some slot =>
    simp only [cancelSlot, current, update, wpBind, wpGet, wpPure, wpModify]
    exact emitEnds (P := fun e => e.pool.size = engine.pool.size) (removeRestingSize ..)

theorem simTradeId {one two : Engine} {left right : Venue} (simOne : Sim one left)
    (simTwo : Sim two right) (same : left.nextTradeId = right.nextTradeId) :
    one.nextTradeId = two.nextTradeId := by
  obtain ⟨_, _, _, view⟩ := simOne
  obtain ⟨_, _, _, view'⟩ := simTwo
  exact UInt64.toNat_inj.mp (view.tradeId.trans (same.trans view'.tradeId.symm))

theorem framesMeet {one two : Engine} (grownOne : Grown engine one) (grownTwo : Grown engine two)
    (b : Nat) : SameFrame (one.books.read b) (two.books.read b) :=
  have back := grownOne.frame b
  sameFrameTrans ⟨back.instrumentId.symm, back.ladder.symm, fun side => (back.levels side).symm,
    fun side => (back.words side).symm⟩ (grownTwo.frame b)

theorem venueRequeues {b : Nat} {side : Side} {old : Order} {book : Book}
    (replacing : Venue.Replacing venue request b side old book)
    (loses : request.newPrice ≠ old.price ∨ old.openQty < (Venue.replacement request old).openQty) :
    Venue.perform wrappedFill (.replace request) venue =
      Venue.requeue request b side old (venue.spend request.newOrderId old.filledQty) := by
  have left := Nat.ne_of_gt replacing.positive
  have unused : ¬(request.newOrderId ≠ request.orderId ∧ request.newOrderId ∈ venue.spent) :=
    fun used => replacing.unused used.1 used.2
  simp only [Venue.perform, Venue.replace, replacing.configured, Bool.not_true, Bool.false_eq_true,
    if_false, replacing.found,
    left, unused, replacing.aligned, replacing.here, Option.map_some, replacing.inBand,
      Option.getD_some]
  rw [Venue.replaceOrder, if_pos loses]

theorem venueCancels {id : OrderId} {b : Nat} {side : Side} {old : Order}
    (configured : venue.configured = true) (found : venue.findOpen id = some (b, side, old)) :
    Venue.perform wrappedFill (.cancel ⟨id⟩) venue = Venue.cancelOrder b side old venue := by
  simp only [Venue.perform, Venue.cancel, configured, Bool.not_true, Bool.false_eq_true, if_false,
    found]

end Requeueing

def canceledFirst (request : ReplaceOrder) (engine : Engine) : Session :=
  call .calm (.cancel ⟨request.orderId⟩) engine

def enteredAnew (request : ReplaceOrder) (old : OrderRecord) (engine : Engine) : Session :=
  call .calm (.submit (Venue.freshOrder request old.instrumentId old.side
    (replacementOpen request old))) (canceledFirst request engine).engine

structure LikeCancelAndNew (engine : Engine) (request : ReplaceOrder) (slot : Slot) : Prop where
  canceled : (canceledFirst request engine).events =
    [.canceled request.orderId (engine.pool.get slot).openQty.toNat .userRequested]
  trades : ∃ trades : List Event,
    (call .calm (.replace request) engine).events =
    .replaced request.orderId request.newOrderId request.newPrice
      (replacementOpen request (engine.pool.get slot)).toNat :: trades ∧
    (enteredAnew request (engine.pool.get slot) engine).events =
    .accepted request.newOrderId :: trades
  books : SameBooks (call .calm (.replace request) engine).engine
    (enteredAnew request (engine.pool.get slot) engine).engine
  nextTradeId : (call .calm (.replace request) engine).engine.nextTradeId =
    (enteredAnew request (engine.pool.get slot) engine).engine.nextTradeId

theorem requeueIsCancelAndNew (actions : List Action) (roomy : Roomy (after actions))
    (request : ReplaceOrder) (slot : Slot)
    (valid : ReplaceValid (after actions) request slot)
    (unused : (after actions).orderIndex.contains request.newOrderId = false)
    (loses : request.newPrice ≠ ((after actions).pool.get slot).price ∨
      ((after actions).pool.get slot).openQty < replacementOpen request
      ((after actions).pool.get slot)) :
    LikeCancelAndNew (after actions) request slot := by
  obtain ⟨venue, sim, uncrossed⟩ := reached Venue.keptUncrossed actions roomy
  obtain ⟨b, book, place⟩ := located sim valid.found
  have configured := openConfigured actions valid.found sim
  have replacing := simReplacing sim configured valid place
  have losing : request.newPrice ≠ ((after actions).pool.get slot).order.price ∨
      ((after actions).pool.get slot).order.openQty <
        (Venue.replacement request ((after actions).pool.get slot).order).openQty := by
    rw [replacementEqOpen]
    exact loses.imp_right UInt32.lt_iff_toNat_lt.mp
  have room := roomy.slots
  -- the replace
  have replaced := calmEvents sim room (.replace request)
  have replacedSim := (calmCall sim room (.replace request)).2
  rw [venueRequeues replacing losing] at replaced replacedSim
  -- the cancel
  have canceled := calmEvents sim room (.cancel ⟨request.orderId⟩)
  have canceledSim := (calmCall sim room (.cancel ⟨request.orderId⟩)).2
  rw [venueCancels configured place.found] at canceled canceledSim
  -- the new order
  have size := cancelSize .calm ⟨request.orderId⟩ (after actions)
  have order : Venue.freshOrder request ((after actions).pool.get slot).instrumentId
      ((after actions).pool.get slot).side
      (replacementOpen request ((after actions).pool.get slot)) =
      Venue.freshOrder request book.instrumentId ((after actions).pool.get slot).side
        (replacementOpen request ((after actions).pool.get slot)) := by rw [place.instrument]
  have submitted :=
    calmEvents canceledSim (by rw [size]; exact room) (.submit (Venue.freshOrder request
    ((after actions).pool.get slot).instrumentId ((after actions).pool.get slot).side
    (replacementOpen request ((after actions).pool.get slot))))
  have submittedSim :=
    (calmCall canceledSim (by rw [size]; exact room) (.submit (Venue.freshOrder request
    ((after actions).pool.get slot).instrumentId ((after actions).pool.get slot).side
    (replacementOpen request ((after actions).pool.get slot))))).2
  rw [order] at submitted submittedSim
  have new : request.newOrderId ∉ venue.spent := simUnused sim unused
  have course :=
    Venue.requeueIsFresh uncrossed replacing place.index new (replacementEqOpen request _).symm
  obtain ⟨trades, first, second⟩ := course.trades
  have named : ((after actions).pool.get slot).order.id = request.orderId :=
    (Venue.findOpenRests place.found).2.2
  refine ⟨?_, ⟨trades, replaced.trans first, ?_⟩, ?_, ?_⟩
  · rw [canceledFirst, canceled, ← named]
    rfl
  · rw [enteredAnew, order]
    exact submitted.trans second
  · rw [enteredAnew, order]
    exact sameBooks (framesMeet (callGrown ..) (grownTrans (callGrown ..) (callGrown ..))) (by
      rw [(callGrown ..).books, canceledFirst, (callGrown ..).books, (callGrown ..).books])
      replacedSim submittedSim course.places
  · rw [enteredAnew, order]
    exact simTradeId replacedSim submittedSim course.places.trades

theorem movedSellIsCancelAndNew : LikeCancelAndNew
    (after (calmRun [⟨7, 100000, 1000⟩] [.submit ⟨1, 7, .sell, .limit, .day, 100100, 5⟩,
      .submit ⟨2, 7, .sell, .limit, .day, 100100, 4⟩,
        .submit ⟨3, 7, .buy, .limit, .day, 100000, 3⟩])) ⟨1, 9, 100000, 6⟩ 0 :=
  requeueIsCancelAndNew _ (roomyOf (by decide +kernel) (by decide +kernel)) _ _
    ⟨by decide +kernel, by decide +kernel, fun _ => by decide +kernel, by decide +kernel,
      by decide +kernel⟩ (by decide +kernel)
    (by decide +kernel)

end Engine
end Xmatch
