import Xmatch.Reference
import Xmatch.Rejections

/-! What the venue does not look at: which numbers name the orders and the instruments, which
of the two sides is called the buy side, and how many units make a lot. -/
namespace Xmatch

/- Another way to say the same: other ids, other prices, the sides exchanged or not, smaller
lots. -/
structure Symmetry where
  order : OrderId → OrderId := id
  instrument : InstrumentId → InstrumentId := id
  flipped : Bool := false
  price : InstrumentId → Int → Int := fun _ => id
  lot : Nat := 1

namespace Symmetry

def side (sym : Symmetry) (side : Side) : Side := if sym.flipped then side.opposite else side

def resting (sym : Symmetry) (instrument : InstrumentId) (order : Order) : Order :=
  { id := sym.order order.id, price := sym.price instrument order.price,
    openQty := sym.lot * order.openQty,
    filledQty := sym.lot * order.filledQty }

def quantity (sym : Symmetry) (quantity : Quantity) : Quantity :=
  UInt32.ofNat (sym.lot * quantity.toNat)

def newOrder (sym : Symmetry) (order : NewOrder) : NewOrder :=
  { order with
    orderId := sym.order order.orderId
    instrumentId := sym.instrument order.instrumentId
    side := sym.side order.side
    price := sym.price order.instrumentId order.price
    quantity := sym.quantity order.quantity }

def replaceOrder (sym : Symmetry) (instrument : InstrumentId) (request : ReplaceOrder) :
    ReplaceOrder :=
  { orderId := sym.order request.orderId
    newOrderId := sym.order request.newOrderId
    newPrice := sym.price instrument request.newPrice
    newQuantity := sym.quantity request.newQuantity }

def request (sym : Symmetry) (instrument : InstrumentId) : Request → Request
  | .submit order => .submit (sym.newOrder order)
  | .cancel request => .cancel ⟨sym.order request.orderId⟩
  | .replace request => .replace (sym.replaceOrder instrument request)

def Fits (sym : Symmetry) : Request → Prop
  | .submit order => sym.lot * order.quantity.toNat < 2 ^ 32
  | .cancel _ => True
  | .replace request => sym.lot * request.newQuantity.toNat < 2 ^ 32

def event (sym : Symmetry) (instrument : InstrumentId) : Event → Event
  | .accepted id => .accepted (sym.order id)
  | .rejected id reason => .rejected (sym.order id) reason
  | .trade tradeId instrumentId price quantity resting aggressive side =>
    .trade tradeId (sym.instrument instrumentId) (sym.price instrument price) (sym.lot * quantity)
      (sym.order resting) (sym.order aggressive) (sym.side side)
  | .canceled id quantity reason => .canceled (sym.order id) (sym.lot * quantity) reason
  | .replaced old new price quantity =>
    .replaced (sym.order old) (sym.order new) (sym.price instrument price) (sym.lot * quantity)

instance (sym : Symmetry) : (request : Request) → Decidable (sym.Fits request)
  | .submit order => inferInstanceAs (Decidable (sym.lot * order.quantity.toNat < 2 ^ 32))
  | .cancel _ => inferInstanceAs (Decidable True)
  | .replace request => inferInstanceAs (Decidable (sym.lot * request.newQuantity.toNat < 2 ^ 32))

def top (sym : Symmetry) (instrument : InstrumentId) (top : TopOfBook) : TopOfBook :=
  let bid := (sym.price instrument top.bidPrice, sym.quantity top.bidQuantity)
  let ask := (sym.price instrument top.askPrice, sym.quantity top.askQuantity)
  if sym.flipped then
    { bidPrice := ask.1, bidQuantity := ask.2, askPrice := bid.1, askQuantity := bid.2 }
  else { bidPrice := bid.1, bidQuantity := bid.2, askPrice := ask.1, askQuantity := ask.2 }

def Listed (frame : InstrumentId × Int × Int) (price : Int) : Prop :=
  InBand frame.2.1 frame.2.2 price

/- The venues with the frames `left` and `right` have the same instruments and check prices alike,
and prices keep their priority. -/
structure Lawful (sym : Symmetry) (left right : List (InstrumentId × Int × Int)) : Prop where
  order : Function.Injective sym.order
  instrument : Function.Injective sym.instrument
  lot : 0 < sym.lot
  named : right.map Prod.fst = left.map (fun frame => sym.instrument frame.1)
  nothing : ∀ instrument, sym.price instrument 0 = 0
  aligned : ∀ frame ∈ left, ∀ price,
    TickTable.isTickAligned kTickSchedule (sym.price frame.1 price) =
    TickTable.isTickAligned kTickSchedule price
  inside : ∀ (b : Nat) (frame frame' : InstrumentId × Int × Int), left[b]? = some frame →
    right[b]? = some frame' → ∀ price : Int,
    (frame'.2.1 ≤ sym.price frame.1 price ∧ sym.price frame.1 price ≤ frame'.2.2) ↔
    (frame.2.1 ≤ price ∧ price ≤ frame.2.2)
  better : ∀ frame ∈ left, ∀ p q, Listed frame p → Listed frame q → ∀ side,
    (sym.side side).better (sym.price frame.1 p) (sym.price frame.1 q) ↔ side.better p q

/- A way to judge fill-or-kill orders that does not see the difference. -/
def Carries (sym : Symmetry) (left : List (InstrumentId × Int × Int)) (feasible : Feasible) :
    Prop :=
  ∀ frame ∈ left, ∀ side limit qty (orders : List Order), (∀ l ∈ limit, Listed frame l) →
    (∀ o ∈ orders, Listed frame o.price) →
    feasible (sym.side side) (limit.map (sym.price frame.1)) (sym.lot * qty)
    (orders.map (sym.resting frame.1)) =
      feasible side limit qty orders

section Sides
variable {sym : Symmetry} {left right : List (InstrumentId × Int × Int)}

theorem sideOpposite (sym : Symmetry) (side : Side) :
    (sym.side side).opposite = sym.side side.opposite := by
  unfold Symmetry.side
  split <;> rfl

theorem sideInjective (sym : Symmetry) {s t : Side} (same : sym.side s = sym.side t) : s = t := by
  unfold Symmetry.side at same
  cases s <;> cases t <;> split at same <;> first | rfl | contradiction

theorem sideSurjective (sym : Symmetry) (s : Side) : ∃ t, sym.side t = s := by
  refine ⟨sym.side s, ?_⟩
  unfold Symmetry.side
  split <;> simp

end Sides
end Symmetry

theorem Side.acceptsLimit (side : Side) (limit price : Int) :
    side.accepts (some limit) price = !decide (side.better price limit) := by
  cases side <;> simp only [Side.accepts, Side.better] <;> grind

namespace Venue
open Symmetry

def instrumentAt (venue : Venue) (b : Nat) : InstrumentId :=
  ((venue.books[b]?).map (·.instrumentId)).getD 0

structure Retold (sym : Symmetry) (left right : Venue) : Prop where
  lawful : sym.Lawful (left.books.map Book.frame) (right.books.map Book.frame)
  configured : right.configured = left.configured
  orders : ∀ b side, right.orders b (sym.side side) =
    (left.orders b side).map (sym.resting (left.instrumentAt b))
  listed : ∀ b side, ∀ o ∈ left.orders b side, ∀ frame,
    (left.books.map Book.frame)[b]? = some frame → Listed frame o.price
  spent : ∀ id, sym.order id ∈ right.spent ↔ id ∈ left.spent
  trades : right.nextTradeId = left.nextTradeId

section Relating
variable {sym : Symmetry} {left right : Venue} {b : Nat} {side : Side}

theorem retoldLength (like : Retold sym left right) : right.books.length = left.books.length := by
  have named := congrArg List.length like.lawful.named
  simpa using named

theorem instrumentPut (venue : Venue) (b c : Nat) (side : Side) (xs : List Order) :
    (venue.putSide b side xs).instrumentAt c = venue.instrumentAt c := by
  rw [instrumentAt, instrumentAt, frameInstrument, frameInstrument, framesPut]

theorem retoldPut (like : Retold sym left right) (b : Nat) (side : Side) {xs ys : List Order}
    (same : ys = xs.map (sym.resting (left.instrumentAt b)))
    (listed : ∀ o ∈ xs, ∀ frame, (left.books.map Book.frame)[b]? = some frame →
      Listed frame o.price) :
    Retold sym (left.putSide b side xs) (right.putSide b (sym.side side) ys) where
  lawful := by
    rw [framesPut, framesPut]
    exact like.lawful
  configured := like.configured
  orders c s := by
    rw [ordersPutSide, ordersPutSide, retoldLength like, instrumentPut]
    by_cases here : c = b ∧ s = side ∧ b < left.books.length
    · rw [if_pos here, if_pos ⟨here.1, by rw [here.2.1], here.2.2⟩, same, here.1]
    · rw [if_neg here, if_neg (fun there => here ⟨there.1, sideInjective sym there.2.1, there.2.2⟩),
        like.orders]
  listed c s o member frame at' := by
    rw [framesPut] at at'
    rw [ordersPutSide] at member
    split at member
    · rename_i here
      exact listed o member frame (by rw [← here.1]; exact at')
    · exact like.listed c s o member frame at'
  spent := like.spent
  trades := like.trades

theorem retoldSpend (like : Retold sym left right) (id : OrderId) (filled filled' : Nat) :
    Retold sym (left.spend id filled) (right.spend (sym.order id) filled') where
  lawful := like.lawful
  configured := like.configured
  orders := like.orders
  listed := like.listed
  spent other := by
    simp only [spend, List.mem_cons, like.lawful.order.eq_iff, like.spent]
  trades := like.trades

structure SaidAlike (sym : Symmetry) (instrument : InstrumentId) (one two : List Moment × Venue) :
    Prop where
  events : two.1.map (·.event) = one.1.map (fun moment => sym.event instrument moment.event)
  venues : Retold sym one.2 two.2

variable {frame : InstrumentId × Int × Int}

theorem instrumentOf (here : (left.books.map Book.frame)[b]? = some frame) :
    left.instrumentAt b = frame.1 := by
  rw [instrumentAt, frameInstrument, here]
  rfl

theorem lawfulAccepts {frames frames' : List (InstrumentId × Int × Int)}
    (lawful : sym.Lawful frames frames') (member : frame ∈ frames) {limit : Option Int}
    (bound : ∀ l ∈ limit, Listed frame l) {price : Int} (inBand : Listed frame price) :
    (sym.side side).accepts (limit.map (sym.price frame.1)) (sym.price frame.1 price) =
      side.accepts limit price := by
  cases limit with
  | none => rfl
  | some l =>
    have same := lawful.better frame member price l inBand (bound l rfl) side
    rw [Option.map_some, Side.acceptsLimit, Side.acceptsLimit, decide_eq_decide.mpr same]

theorem restingFill (sym : Symmetry) (instrument : InstrumentId) (order : Order) (qty : Nat) :
    (sym.resting instrument order).fill (sym.lot * qty) =
      sym.resting instrument (order.fill qty) := by
  simp only [resting, Order.fill, Nat.mul_sub, Nat.mul_add]

theorem retoldTrade (like : Retold sym left right)
    (here : (left.books.map Book.frame)[b]? = some frame) (maker : Order) (rest : List Order)
    (taker : Order) (listed : ∀ o ∈ maker :: rest, Listed frame o.price) :
    Retold sym (tradeStep b side maker rest left taker).venue
        (tradeStep b (sym.side side) (sym.resting frame.1 maker) (rest.map (sym.resting frame.1))
          right (sym.resting frame.1 taker)).venue ∧
      (tradeStep b (sym.side side) (sym.resting frame.1 maker) (rest.map (sym.resting frame.1))
        right (sym.resting frame.1 taker)).taker =
        sym.resting frame.1 (tradeStep b side maker rest left taker).taker ∧
      (tradeMoment (sym.instrument frame.1) (sym.side side) (sym.resting frame.1 maker) right
        (sym.resting frame.1 taker)).event =
        sym.event frame.1 (tradeMoment frame.1 side maker left taker).event := by
  have qty : min (sym.resting frame.1 taker).openQty (sym.resting frame.1 maker).openQty =
      sym.lot * min taker.openQty maker.openQty :=
    Nat.mul_min_mul_left ..
  have closes : (sym.resting frame.1 maker).openQty ≤ (sym.resting frame.1 taker).openQty ↔
      maker.openQty ≤ taker.openQty :=
    Nat.mul_le_mul_left_iff like.lawful.lot
  refine ⟨?_, ?_, ?_⟩
  · have bumped : Retold sym { left with nextTradeId := left.nextTradeId + 1 }
        { right with nextTradeId := right.nextTradeId + 1 } :=
      ⟨like.lawful, like.configured, like.orders, like.listed, like.spent,
        congrArg (· + 1) like.trades⟩
    have put := @retoldPut sym _ _ bumped b side.opposite
      (if maker.openQty ≤ taker.openQty then rest
        else maker.fill (min taker.openQty maker.openQty) :: rest)
      (if maker.openQty ≤ taker.openQty then rest.map (sym.resting frame.1)
        else (sym.resting frame.1 maker).fill (sym.lot * min taker.openQty maker.openQty) ::
        rest.map (sym.resting frame.1))
      (by
        rw [show instrumentAt { left with nextTradeId := left.nextTradeId + 1 } b =
          frame.1 from instrumentOf here, restingFill]
        split <;> rfl)
      (by
        intro o member other there
        obtain rfl : frame = other := Option.some.inj (here.symm.trans there)
        split at member
        · exact listed o (List.mem_cons_of_mem _ member)
        · rcases List.mem_cons.mp member with rfl | later
          · exact listed maker List.mem_cons_self
          · exact listed o (List.mem_cons_of_mem _ later))
    simp only [tradeStep, qty, closes, sideOpposite]
    exact ⟨put.lawful, put.configured, put.orders, put.listed, put.spent, put.trades⟩
  · simp only [tradeStep, qty, restingFill]
  · simp only [tradeMoment, qty, like.trades]
    rfl

theorem tradeStepFrames (venue : Venue) (maker : Order) (rest : List Order) (taker : Order) :
    (tradeStep b side maker rest venue taker).venue.books.map Book.frame =
      venue.books.map Book.frame :=
  framesPut { venue with nextTradeId := venue.nextTradeId + 1 } b side.opposite _

theorem retoldSweep (limit : Option Int) (bound : ∀ l ∈ limit, Listed frame l) :
    ∀ (orders : List Order) (left right : Venue)
    (taker : Order), Retold sym left right → (left.books.map Book.frame)[b]? = some frame →
    (∀ o ∈ orders, Listed frame o.price) →
    SaidAlike sym frame.1 ((sweep b frame.1 side limit orders left taker).1,
      (sweep b frame.1 side limit orders left taker).2.venue)
        ((sweep b (sym.instrument frame.1) (sym.side side) (limit.map (sym.price frame.1))
          (orders.map (sym.resting frame.1)) right
            (sym.resting frame.1 taker)).1,
          (sweep b (sym.instrument frame.1) (sym.side side) (limit.map (sym.price frame.1))
            (orders.map (sym.resting frame.1)) right
            (sym.resting frame.1 taker)).2.venue) ∧
      (sweep b (sym.instrument frame.1) (sym.side side) (limit.map (sym.price frame.1))
        (orders.map (sym.resting frame.1)) right
          (sym.resting frame.1 taker)).2.taker =
      sym.resting frame.1 (sweep b frame.1 side limit orders left taker).2.taker ∧
      (sweep b frame.1 side limit orders left taker).2.venue.books.map Book.frame =
        left.books.map Book.frame := by
  intro orders
  induction orders with
  | nil => exact fun left right taker like _ _ => ⟨⟨rfl, like⟩, rfl, rfl⟩
  | cons maker rest ih =>
    intro left right taker like here listed
    have positive : 0 < (sym.resting frame.1 taker).openQty ↔ 0 < taker.openQty :=
      Nat.mul_pos_iff_of_pos_left like.lawful.lot
    have closes : (sym.resting frame.1 maker).openQty ≤ (sym.resting frame.1 taker).openQty ↔
        maker.openQty ≤ taker.openQty :=
      Nat.mul_le_mul_left_iff like.lawful.lot
    have accepts : (sym.side side).accepts (limit.map (sym.price frame.1))
        (sym.resting frame.1 maker).price =
        side.accepts limit maker.price :=
          lawfulAccepts like.lawful (List.mem_of_getElem? here) bound
            (listed maker List.mem_cons_self)
    obtain ⟨next, nextTaker, event⟩ :=
      @retoldTrade sym left right b side frame like here maker rest taker listed
    by_cases goesOn : 0 < taker.openQty ∧ side.accepts limit maker.price = true
    · by_cases fills : maker.openQty ≤ taker.openQty
      · obtain ⟨⟨events, venues⟩, out, frames⟩ :=
          ih _ _ (tradeStep b side maker rest left taker).taker next
          (by rw [tradeStepFrames]; exact here)
          (fun o member => listed o (List.mem_cons_of_mem _ member))
        simp only [List.map_cons, sweep, positive, accepts, goesOn, and_self, if_true, closes,
          fills, nextTaker]
        refine ⟨⟨?_, venues⟩, out, frames.trans (tradeStepFrames ..)⟩
        rw [List.map_cons, List.map_cons, event, events]
      · simp only [List.map_cons, sweep, positive, accepts, goesOn, and_self, if_true, closes,
          fills, if_false]
        refine ⟨⟨?_, next⟩, nextTaker, tradeStepFrames ..⟩
        rw [List.map_singleton, List.map_singleton, event]
    · simp only [List.map_cons, sweep, positive, accepts, goesOn, if_false]
      exact ⟨⟨rfl, like⟩, trivial, trivial⟩

theorem retoldEnqueue (like : Retold sym left right)
    (here : (left.books.map Book.frame)[b]? = some frame) {order : Order}
    (inBand : Listed frame order.price) :
    ∀ orders : List Order, (∀ o ∈ orders, Listed frame o.price) →
    enqueue (sym.side side) (sym.resting frame.1 order) (orders.map (sym.resting frame.1)) =
      (enqueue side order orders).map (sym.resting frame.1) := by
  intro orders
  induction orders with
  | nil => exact fun _ => rfl
  | cons first rest ih =>
    intro listed
    have same := like.lawful.better frame (List.mem_of_getElem? here) order.price first.price inBand
      (listed first List.mem_cons_self) side
    have better : (sym.side side).better (sym.resting frame.1 order).price
        (sym.resting frame.1 first).price ↔
        side.better order.price first.price := same
    rw [List.map_cons, enqueue, enqueue]
    by_cases ahead : side.better order.price first.price
    · rw [if_pos ahead, if_pos (better.mpr ahead)]
      rfl
    · rw [if_neg ahead, if_neg (fun ahead' => ahead (better.mp ahead')), List.map_cons,
        ih (fun o member => listed o (List.mem_cons_of_mem _ member))]

theorem retoldWithout (injective : Function.Injective sym.order) (id : OrderId)
    (instrument : InstrumentId) (orders : List Order) :
    without (sym.order id) (orders.map (sym.resting instrument)) =
      (without id orders).map (sym.resting instrument) := by
  have same : ∀ o : Order, (sym.resting instrument o).id = sym.order id ↔ o.id = id :=
    fun o => injective.eq_iff
  rw [without, without, List.filter_map]
  refine congrArg _ (List.filter_congr (fun o _ => ?_))
  simp only [Function.comp_apply, ne_eq, same]

theorem retoldInstead (injective : Function.Injective sym.order) (id : OrderId) (order : Order)
    (instrument : InstrumentId) (orders : List Order) :
    instead (sym.order id) (sym.resting instrument order) (orders.map (sym.resting instrument)) =
      (instead id order orders).map (sym.resting instrument) := by
  have same : ∀ o : Order, (sym.resting instrument o).id = sym.order id ↔ o.id = id :=
    fun o => injective.eq_iff
  rw [instead, instead, List.map_map, List.map_map]
  refine List.map_congr_left (fun o _ => ?_)
  simp only [Function.comp_apply, same]
  split <;> rfl

theorem lawfulEligible {frames frames' : List (InstrumentId × Int × Int)}
    (lawful : sym.Lawful frames frames') (member : frame ∈ frames) {limit : Option Int}
    (bound : ∀ l ∈ limit, Listed frame l) {orders : List Order}
    (listed : ∀ o ∈ orders, Listed frame o.price) :
    eligible (sym.side side) (limit.map (sym.price frame.1)) (orders.map (sym.resting frame.1)) =
      (eligible side limit orders).map (sym.resting frame.1) := by
  rw [eligible, eligible, List.filter_map]
  exact congrArg _ (List.filter_congr (fun o inOrders =>
    lawfulAccepts lawful member bound (listed o inOrders)))

theorem quantityLots (sym : Symmetry) (instrument : InstrumentId) (orders : List Order) :
    quantityOf (orders.map (sym.resting instrument)) = sym.lot * quantityOf orders := by
  induction orders with
  | nil => rfl
  | cons first rest ih =>
    simp only [quantityOf, List.map_cons, List.sum_cons, Nat.mul_add] at ih ⊢
    rw [ih]
    rfl

theorem exactCarries {frames frames' : List (InstrumentId × Int × Int)}
    (lawful : sym.Lawful frames frames') : sym.Carries frames exactFill := by
  intro frame member side limit qty orders bound listed
  simp only [exactFill, lawfulEligible lawful member bound listed, quantityLots,
    Nat.mul_le_mul_left_iff lawful.lot]

theorem wrappedCarries {frames frames' : List (InstrumentId × Int × Int)}
    (lawful : sym.Lawful frames frames') (unit : sym.lot = 1) : sym.Carries frames wrappedFill := by
  intro frame member side limit qty orders bound listed
  have eligibleListed : ∀ o ∈ eligible side limit orders, Listed frame o.price :=
    fun o inEligible => listed o (List.mem_of_mem_filter inEligible)
  simp only [wrappedFill, lawfulEligible lawful member bound listed, List.any_map, unit,
    Nat.one_mul]
  rw [Bool.eq_iff_iff, List.any_eq_true, List.any_eq_true]
  refine exists_congr (fun o => and_congr_right (fun inEligible => ?_))
  have sums : atLeastAsGood (sym.side side).opposite (sym.price frame.1 o.price)
      ((eligible side limit orders).map (sym.resting frame.1)) =
      (atLeastAsGood side.opposite o.price (eligible side limit orders)).map
      (sym.resting frame.1) := by
    rw [atLeastAsGood, atLeastAsGood, List.filter_map, sideOpposite]
    refine congrArg _ (List.filter_congr (fun o' inEligible' => ?_))
    have same := lawful.better frame member o.price o'.price (eligibleListed o inEligible)
        (eligibleListed o' inEligible') side.opposite
    exact congrArg (!·) (decide_eq_decide.mpr same)
  have sum :=
    quantityLots sym frame.1 (atLeastAsGood side.opposite o.price (eligible side limit orders))
  rw [← sums, unit, Nat.one_mul] at sum
  simp only [Function.comp_apply]
  rw [show (sym.resting frame.1 o).price = sym.price frame.1 o.price from rfl, sum]

theorem retoldOrders (like : Retold sym left right)
    (here : (left.books.map Book.frame)[b]? = some frame) (side : Side) :
    right.orders b (sym.side side) = (left.orders b side).map (sym.resting frame.1) := by
  rw [like.orders, instrumentOf here]

theorem retoldRest (like : Retold sym left right)
    (here : (left.books.map Book.frame)[b]? = some frame) {order : Order}
    (inBand : Listed frame order.price) :
    Retold sym (left.putSide b side (enqueue side order (left.orders b side)))
      (right.putSide b (sym.side side)
        (enqueue (sym.side side) (sym.resting frame.1 order)
          (right.orders b (sym.side side)))) := by
  have listed : ∀ o ∈ left.orders b side, Listed frame o.price :=
    fun o member => like.listed b side o member frame here
  refine retoldPut like b side ?_ (fun o member other there => ?_)
  · rw [retoldOrders like here, instrumentOf here, retoldEnqueue like here inBand _ listed]
  · obtain rfl : frame = other := Option.some.inj (here.symm.trans there)
    rcases memEnqueue.mp member with rfl | old
    · exact inBand
    · exact listed o old

theorem retoldSettle {one two : List Moment × Sweep}
    (alike : SaidAlike sym frame.1 (one.1, one.2.venue) (two.1, two.2.venue))
    (here : (one.2.venue.books.map Book.frame)[b]? = some frame)
    (taker : two.2.taker = sym.resting frame.1 one.2.taker)
    (inBand : 0 < one.2.taker.openQty → Listed frame one.2.taker.price) :
    Retold sym (settle b side one.2) (settle b (sym.side side) two.2) := by
  have positive : 0 < (sym.resting frame.1 one.2.taker).openQty ↔ 0 < one.2.taker.openQty :=
    Nat.mul_pos_iff_of_pos_left alike.venues.lawful.lot
  simp only [settle, taker, positive]
  by_cases left : 0 < one.2.taker.openQty
  · rw [if_pos left, if_pos left]
    exact retoldRest alike.venues here (inBand left)
  · rw [if_neg left, if_neg left]
    exact alike.venues

theorem saidCons {instrument : InstrumentId} {one two : List Moment × Venue}
    (alike : SaidAlike sym instrument one two) {first second : Moment}
    (same : second.event = sym.event instrument first.event) :
    SaidAlike sym instrument (first :: one.1, one.2) (second :: two.1, two.2) :=
  ⟨by rw [List.map_cons, List.map_cons, same, alike.events], alike.venues⟩

theorem saidReject (like : Retold sym left right) (instrument : InstrumentId) (id : OrderId)
    (reason : RejectReason) :
    SaidAlike sym instrument (reject id reason left) (reject (sym.order id) reason right) :=
  ⟨rfl, like⟩

theorem limitOfNew (sym : Symmetry) (order : NewOrder) :
    limitOf (sym.newOrder order) = (limitOf order).map (sym.price order.instrumentId) := by
  unfold limitOf
  rw [show (sym.newOrder order).type = order.type from rfl]
  split <;> rfl

theorem quantityExact (sym : Symmetry) {quantity : Quantity}
    (fits : sym.lot * quantity.toNat < 2 ^ 32) :
    (sym.quantity quantity).toNat = sym.lot * quantity.toNat := WordBits.toNatOfNat fits

theorem takerOfNew (like : Retold sym left right) {order : NewOrder}
    (named : order.instrumentId = frame.1) (fits : sym.lot * order.quantity.toNat < 2 ^ 32) :
    takerOf (sym.newOrder order) = sym.resting frame.1 (takerOf order) := by
  have nothing := like.lawful.nothing frame.1
  have price : ((limitOf (sym.newOrder order)).getD 0) =
      sym.price frame.1 ((limitOf order).getD 0) := by
    rw [limitOfNew, named]
    cases limitOf order with
    | none => exact nothing.symm
    | some limit => rfl
  have quantity : (sym.newOrder order).quantity.toNat = sym.lot * order.quantity.toNat :=
    quantityExact sym fits
  simp only [takerOf, resting, price, quantity, Nat.mul_zero]
  rfl

theorem validLimit {frame : InstrumentId × Int × Int} {order : NewOrder}
    (valid : invalid ⟨frame.1, frame.2.1, frame.2.2, [], []⟩ order = none) :
    ∀ l ∈ limitOf order, Listed frame l := by
  intro l limit
  unfold limitOf at limit
  unfold invalid outsideBand at valid
  split at limit
  · contradiction
  · rename_i priced
    obtain rfl := Option.some.inj limit
    simp only [priced, false_and, if_false, ne_eq, not_false_eq_true, if_true] at valid
    split at valid
    · contradiction
    split at valid
    · contradiction
    split at valid
    · contradiction
    · rename_i aligned inside
      simp only [decide_eq_true_eq, not_or, Int.not_lt] at inside
      exact ⟨by simpa using aligned, inside.1, inside.2⟩

theorem sweepTakerPrice {instrumentId : InstrumentId} {limit : Option Int} :
    ∀ (orders : List Order) (venue : Venue) (taker : Order),
    (sweep b instrumentId side limit orders venue taker).2.taker.price = taker.price := by
  intro orders venue taker
  exact (@sweepInduct b instrumentId side limit (fun _ _ left _ => left.price = taker.price)
    (fun _ _ _ _ _ same _ _ => same) orders [] venue taker rfl).1

theorem retoldWork (like : Retold sym left right)
    (here : (left.books.map Book.frame)[b]? = some frame) {order : NewOrder}
    (named : order.instrumentId = frame.1) (fits : sym.lot * order.quantity.toNat < 2 ^ 32)
    (bound : ∀ l ∈ limitOf order, Listed frame l) :
    SaidAlike sym frame.1 ((work b order left).1, (work b order left).2.venue)
        ((work b (sym.newOrder order) right).1, (work b (sym.newOrder order) right).2.venue) ∧
      (work b (sym.newOrder order) right).2.taker =
        sym.resting frame.1 (work b order left).2.taker ∧
      (work b order left).2.venue.books.map Book.frame = left.books.map Book.frame := by
  have swept :=
    @retoldSweep sym b order.side frame (limitOf order) bound (left.orders b order.side.opposite)
      left right (takerOf order)
    like here (fun o member => like.listed b _ o member frame here)
  unfold work
  rw [takerOfNew like named fits, limitOfNew, named, show (sym.newOrder order).side =
    sym.side order.side from rfl,
    show (sym.newOrder order).instrumentId =
      sym.instrument frame.1 from congrArg sym.instrument named, sideOpposite,
    retoldOrders like here]
  exact swept

theorem retoldDispose (like : Retold sym left right)
    (here : (left.books.map Book.frame)[b]? = some frame) {order : NewOrder}
    (named : order.instrumentId = frame.1) (fits : sym.lot * order.quantity.toNat < 2 ^ 32)
    (valid : invalid ⟨frame.1, frame.2.1, frame.2.2, [], []⟩ order = none) :
    SaidAlike sym frame.1 (dispose b order (work b order left))
      (dispose b (sym.newOrder order) (work b (sym.newOrder order) right)) := by
  have bound := validLimit valid
  obtain ⟨alike, taker, frames⟩ :=
    @retoldWork sym left right b frame like here order named fits bound
  by_cases day : order.tif = .day
  · rw [disposeSettles _ day, disposeSettles _ (show (sym.newOrder order).tif = .day from day)]
    refine ⟨alike.events, ?_⟩
    refine @retoldSettle sym b order.side frame _ _ alike (by rw [frames]; exact here)
      taker (fun _ => ?_)
    have price : (work b order left).2.taker.price = (takerOf order).price := sweepTakerPrice _ _ _
    have limit : limitOf order = some order.price := by
      refine if_neg (fun market => ?_)
      unfold invalid at valid
      simp only [market, day, and_self, if_true] at valid
      split at valid <;> contradiction
    rw [price, takerOf, limit]
    exact bound order.price limit
  · have positive : 0 < (sym.resting frame.1 (work b order left).2.taker).openQty ↔
        0 < (work b order left).2.taker.openQty :=
      Nat.mul_pos_iff_of_pos_left like.lawful.lot
    rw [disposeDrops _ day, disposeDrops _ (show (sym.newOrder order).tif ≠ .day from day)]
    refine ⟨?_, alike.venues⟩
    have events := alike.events
    simp only at events
    simp only [taker, positive, List.map_append, events]
    split <;> rfl

theorem retoldExecute {feasible : Feasible} (like : Retold sym left right)
    (carries : sym.Carries (left.books.map Book.frame) feasible)
    (here : (left.books.map Book.frame)[b]? = some frame) {order : NewOrder}
    (named : order.instrumentId = frame.1) (fits : sym.lot * order.quantity.toNat < 2 ^ 32)
    (valid : invalid ⟨frame.1, frame.2.1, frame.2.2, [], []⟩ order = none) :
    SaidAlike sym frame.1 (execute feasible b order left)
      (execute feasible b (sym.newOrder order) right) := by
  have judged : feasible (sym.newOrder order).side (limitOf (sym.newOrder order))
      (sym.newOrder order).quantity.toNat
      (right.orders b (sym.newOrder order).side.opposite) =
        feasible order.side (limitOf order) order.quantity.toNat
        (left.orders b order.side.opposite) := by
    rw [limitOfNew, named, show (sym.newOrder order).quantity.toNat =
      sym.lot * order.quantity.toNat from quantityExact sym fits,
      show (sym.newOrder order).side = sym.side order.side from rfl, sideOpposite,
        retoldOrders like here]
    exact carries frame (List.mem_of_getElem? here) order.side (limitOf order) order.quantity.toNat
      _ (validLimit valid)
      (fun o member => like.listed b _ o member frame here)
  unfold execute
  simp only [judged, show (sym.newOrder order).tif = order.tif from rfl]
  split
  · refine ⟨?_, like⟩
    rw [List.map_singleton, List.map_singleton,
      show (sym.newOrder order).quantity.toNat =
        sym.lot * order.quantity.toNat from quantityExact sym fits]
    rfl
  · exact retoldDispose like here named fits valid

theorem retoldIndex (like : Retold sym left right) (instrumentId : InstrumentId) :
    right.books.findIdx? (fun book => book.instrumentId = sym.instrument instrumentId) =
      left.books.findIdx? (fun book => book.instrumentId = instrumentId) := by
  have byName : ∀ (books : List Book) (id : InstrumentId),
      books.findIdx? (fun book => book.instrumentId = id) =
      ((books.map Book.frame).map Prod.fst).findIdx? (fun name => name = id) := by
    intro books id
    rw [List.findIdx?_map, List.findIdx?_map]
    rfl
  rw [byName, byName, like.lawful.named]
  simp only [List.findIdx?_map, Function.comp_def, like.lawful.instrument.eq_iff]

theorem retoldFrame (like : Retold sym left right)
    (here : (left.books.map Book.frame)[b]? = some frame) :
    ∃ frame', (right.books.map Book.frame)[b]? = some frame' ∧
      frame'.1 = sym.instrument frame.1 := by
  have named := congrArg (fun names : List InstrumentId => names[b]?) like.lawful.named
  simp only [List.getElem?_map] at named here ⊢
  rw [here] at named
  cases there : right.books[b]? with
  | none =>
    rw [there] at named
    contradiction
  | some book =>
    rw [there] at named
    exact ⟨book.frame, rfl, Option.some.inj named⟩

theorem retoldInvalid (like : Retold sym left right)
    (here : (left.books.map Book.frame)[b]? = some frame) {frame' : InstrumentId × Int × Int}
    (there : (right.books.map Book.frame)[b]? = some frame') {order : NewOrder}
    (named : order.instrumentId = frame.1) (fits : sym.lot * order.quantity.toNat < 2 ^ 32) :
    invalid ⟨frame'.1, frame'.2.1, frame'.2.2, [], []⟩ (sym.newOrder order) =
      invalid ⟨frame.1, frame.2.1, frame.2.2, [], []⟩ order := by
  have exact : (sym.newOrder order).quantity.toNat = sym.lot * order.quantity.toNat :=
    quantityExact sym fits
  have nothing : (sym.newOrder order).quantity = 0 ↔ order.quantity = 0 := by
    rw [← UInt32.toNat_inj, ← UInt32.toNat_inj, exact, show (0 : UInt32).toNat = 0 from rfl,
      Nat.mul_eq_zero]
    exact or_iff_right (Nat.ne_of_gt like.lawful.lot)
  have price : (sym.newOrder order).price = sym.price frame.1 order.price :=
    congrArg (sym.price · order.price) named
  have aligned := like.lawful.aligned frame (List.mem_of_getElem? here) order.price
  have inside := like.lawful.inside b frame frame' here there order.price
  have outside : (sym.price frame.1 order.price < frame'.2.1 ∨
    frame'.2.2 < sym.price frame.1 order.price) ↔
      (order.price < frame.2.1 ∨ frame.2.2 < order.price) := by
    have flip := not_congr inside
    simpa only [not_and_or, Int.not_le] using flip
  unfold invalid outsideBand
  simp only [nothing, price, aligned, outside, show (sym.newOrder order).type = order.type from rfl,
    show (sym.newOrder order).tif = order.tif from rfl]

theorem retoldSubmit {feasible : Feasible} (like : Retold sym left right)
    (carries : sym.Carries (left.books.map Book.frame) feasible) {order : NewOrder}
    (fits : sym.lot * order.quantity.toNat < 2 ^ 32) :
    SaidAlike sym order.instrumentId (submit feasible order left)
      (submit feasible (sym.newOrder order) right) := by
  unfold submit
  simp only [like.configured, show (sym.newOrder order).orderId = sym.order order.orderId from rfl,
    show (sym.newOrder order).instrumentId = sym.instrument order.instrumentId from rfl,
      retoldIndex like, like.spent]
  split
  · exact saidReject like _ _ _
  · split
    · exact saidReject like _ _ _
    · rename_i b found
      split
      · exact saidReject like _ _ _
      · obtain ⟨inside, named, -⟩ := List.findIdx?_eq_some_iff_getElem.mp found
        have here : (left.books.map Book.frame)[b]? = some (left.books[b]).frame := by simp [inside]
        have named : order.instrumentId = ((left.books[b]).frame).1 :=
          (of_decide_eq_true named).symm
        obtain ⟨frame', there, _⟩ := retoldFrame like here
        have spent := retoldSpend like order.orderId 0 0
        have judged : ((right.spend (sym.order order.orderId) 0).books[b]?).bind (fun book =>
          invalid book (sym.newOrder order)) =
            ((left.spend order.orderId 0).books[b]?).bind (fun book => invalid book order) := by
          rw [frameInvalid, frameInvalid, show (right.spend (sym.order order.orderId) 0).books =
            right.books from rfl,
            show (left.spend order.orderId 0).books = left.books from rfl, here, there,
              Option.bind_some, Option.bind_some]
          exact retoldInvalid like here there named fits
        rw [judged]
        cases flaw : ((left.spend order.orderId 0).books[b]?).bind
          (fun book => invalid book order) with
        | some reason => exact saidReject spent _ _ _
        | none =>
          have valid : invalid ⟨(left.books[b]).frame.1, (left.books[b]).frame.2.1,
            (left.books[b]).frame.2.2, [], []⟩ order = none := by
            rw [frameInvalid, show (left.spend order.orderId 0).books =
              left.books from rfl, here] at flaw
            exact flaw
          rw [named]
          exact saidCons (retoldExecute spent carries here named fits valid) rfl

theorem findFromMissing {id : OrderId} :
    ∀ {books : List Book} {k : Nat}, findFrom id k books = none →
    ∀ book ∈ books, ∀ side, ∀ o ∈ book.side side, o.id ≠ id := by
  intro books
  induction books with
  | nil => exact fun _ book member => by contradiction
  | cons first rest ih =>
    intro k missing book member
    rw [findFrom] at missing
    cases has : first.find id with
    | some found =>
      rw [has] at missing
      contradiction
    | none =>
      rw [has] at missing
      rcases List.mem_cons.mp member with rfl | later
      · unfold Book.find at has
        split at has
        · contradiction
        · rename_i noBid
          have noAsk := Option.map_eq_none_iff.mp has
          intro side o inSide
          cases side
          · simpa using List.find?_eq_none.mp noBid o inSide
          · simpa using List.find?_eq_none.mp noAsk o inSide
      · exact ih missing book later

theorem findOpenMissing {venue : Venue} {id : OrderId} (missing : venue.findOpen id = none) :
    ∀ b side, ∀ o ∈ venue.orders b side, o.id ≠ id := by
  intro b side o member
  have inside := ordersInside member
  rw [orders, List.getElem?_eq_getElem inside] at member
  exact findFromMissing missing _ (List.getElem_mem inside) side o member

theorem findOpenIff {venue : Venue} (proper : venue.Proper) {id : OrderId} {b : Nat} {side : Side}
    {order : Order} :
    venue.findOpen id = some (b, side, order) ↔ order ∈ venue.orders b side ∧ order.id = id := by
  refine ⟨fun found => (findOpenRests found).2, fun ⟨member, same⟩ => ?_⟩
  cases found : venue.findOpen id with
  | none => exact absurd same (findOpenMissing found b side order member)
  | some place =>
    obtain ⟨c, s, other⟩ := place
    obtain ⟨-, otherMember, otherSame⟩ := findOpenRests found
    obtain ⟨rfl, rfl⟩ :=
      proper.once b c side s order member other otherMember (same.trans otherSame.symm)
    obtain rfl := List.inj_on_of_nodup_map (proper.nodup b side) member otherMember
      (same.trans otherSame.symm)
    rfl

theorem retoldFindOpen (like : Retold sym left right) (properLeft : left.Proper)
    (properRight : right.Proper) (id : OrderId) :
    right.findOpen (sym.order id) = (left.findOpen id).map (fun place =>
      (place.1, sym.side place.2.1, sym.resting (left.instrumentAt place.1) place.2.2)) := by
  cases found : left.findOpen id with
  | some place =>
    obtain ⟨b, side, order⟩ := place
    obtain ⟨member, same⟩ := (findOpenIff properLeft).mp found
    refine (findOpenIff properRight).mpr ⟨?_, congrArg sym.order same⟩
    rw [like.orders]
    exact List.mem_map_of_mem member
  | none =>
    rw [Option.map_none, Option.eq_none_iff_forall_not_mem]
    rintro ⟨b, s, other⟩ found'
    obtain ⟨member, same⟩ := (findOpenIff properRight).mp found'
    obtain ⟨side, rfl⟩ := sideSurjective sym s
    rw [like.orders] at member
    obtain ⟨order, inLeft, rfl⟩ := List.mem_map.mp member
    exact findOpenMissing found b side order inLeft (like.lawful.order same)

def subject (venue : Venue) : Request → InstrumentId
  | .submit order => order.instrumentId
  | .cancel _ => 0
  | .replace request =>
    ((venue.findOpen request.orderId).map (fun place => venue.instrumentAt place.1)).getD 0

theorem memberFrame {o : Order} (member : o ∈ left.orders b side) :
    ∃ frame, (left.books.map Book.frame)[b]? = some frame := by
  have inside := ordersInside member
  exact ⟨(left.books[b]).frame, by simp [inside]⟩

theorem retoldWithdraw (like : Retold sym left right)
    (here : (left.books.map Book.frame)[b]? = some frame) (side : Side) (id : OrderId) :
    Retold sym (left.withdraw b side id) (right.withdraw b (sym.side side) (sym.order id)) := by
  refine retoldPut like b side ?_ (fun o member other there => ?_)
  · rw [retoldOrders like here, instrumentOf here, retoldWithout like.lawful.order]
  · exact like.listed b side o (memWithout.mp member).1 other there

theorem retoldCancelOrder (like : Retold sym left right)
    (here : (left.books.map Book.frame)[b]? = some frame) (instrument : InstrumentId) (side : Side)
    (order : Order) :
    SaidAlike sym instrument (cancelOrder b side order left)
      (cancelOrder b (sym.side side) (sym.resting frame.1 order) right) :=
  ⟨rfl, retoldWithdraw like here side order.id⟩

theorem retoldReplacement (request : ReplaceOrder) (old : Order) (instrument : InstrumentId)
    (fits : sym.lot * request.newQuantity.toNat < 2 ^ 32) :
    replacement (sym.replaceOrder instrument request) (sym.resting instrument old) =
      sym.resting instrument (replacement request old) := by
  have quantity : (sym.replaceOrder instrument request).newQuantity.toNat =
      sym.lot * request.newQuantity.toNat := quantityExact sym fits
  simp only [replacement, quantity, resting, Nat.mul_sub]
  rfl

structure Asked (sym : Symmetry) (left : Venue) (request : ReplaceOrder) (b : Nat) (side : Side)
    (old : Order) (frame : InstrumentId × Int × Int) : Prop where
  here : (left.books.map Book.frame)[b]? = some frame
  price : Listed frame old.price
  inBand : Listed frame request.newPrice
  fits : sym.lot * request.newQuantity.toNat < 2 ^ 32

variable {request : ReplaceOrder} {old : Order}

theorem samePriceIff (lawful : sym.Lawful (left.books.map Book.frame) (right.books.map Book.frame))
    (member : frame ∈ left.books.map Book.frame) {p q : Int} (listedP : Listed frame p)
    (listedQ : Listed frame q) : sym.price frame.1 p = sym.price frame.1 q ↔ p = q := by
  refine ⟨fun same => ?_, congrArg _⟩
  have one := lawful.better frame member p q listedP listedQ .buy
  have two := lawful.better frame member q p listedQ listedP .buy
  have none : ∀ side : Side, ∀ price : Int, ¬side.better price price := fun side price => by
    cases side <;> exact Int.lt_irrefl _
  rw [same] at one two
  have notOne := mt one.mpr (none _ _)
  have notTwo := mt two.mpr (none _ _)
  simp only [Side.better, Int.not_lt] at notOne notTwo
  omega

theorem retoldRequeueSweep (like : Retold sym left right)
    (asked : Asked sym left request b side old frame) :
    SaidAlike sym frame.1 ((requeueSweep request b side old left).1,
      (requeueSweep request b side old left).2.venue)
        ((requeueSweep (sym.replaceOrder frame.1 request) b (sym.side side)
          (sym.resting frame.1 old) right).1,
          (requeueSweep (sym.replaceOrder frame.1 request) b (sym.side side)
            (sym.resting frame.1 old) right).2.venue) ∧
      (requeueSweep (sym.replaceOrder frame.1 request) b (sym.side side) (sym.resting frame.1 old)
        right).2.taker =
        sym.resting frame.1 (requeueSweep request b side old left).2.taker ∧
      (requeueSweep request b side old left).2.venue.books.map Book.frame =
        left.books.map Book.frame ∧
      (requeueSweep request b side old left).2.taker.price = request.newPrice := by
  obtain ⟨frame', there, named⟩ := retoldFrame like asked.here
  have fresh := @retoldReplacement sym request old frame.1 asked.fits
  have moved : (sym.replaceOrder frame.1 request).newPrice ≠ (sym.resting frame.1 old).price ↔
      request.newPrice ≠ old.price :=
    not_congr (samePriceIff like.lawful (List.mem_of_getElem? asked.here) asked.inBand asked.price)
  have bound : ∀ l ∈ some request.newPrice, Listed frame l :=
    fun l same => Option.some.inj same ▸ asked.inBand
  have instrument : ((left.books[b]?).map (·.instrumentId)).getD 0 = frame.1 :=
    instrumentOf asked.here
  have instrument' : ((right.books[b]?).map (·.instrumentId)).getD 0 = sym.instrument frame.1 :=
    (instrumentOf there).trans named
  unfold requeueSweep
  by_cases moves : request.newPrice ≠ old.price
  · rw [if_pos moves, if_pos (moved.mpr moves), fresh, instrument, instrument', sideOpposite,
      retoldOrders like asked.here]
    obtain ⟨alike, taker, frames⟩ :=
      @retoldSweep sym b side frame (some request.newPrice) bound
        (left.orders b side.opposite) left right
      (replacement request old) like asked.here
      (fun o member => like.listed b _ o member frame asked.here)
    exact ⟨alike, taker, frames, sweepTakerPrice _ _ _⟩
  · rw [if_neg moves, if_neg (fun moves' => moves (moved.mp moves')), fresh]
    exact ⟨⟨rfl, like⟩, rfl, rfl, rfl⟩

theorem retoldRequeue (like : Retold sym left right)
    (asked : Asked sym left request b side old frame) :
    SaidAlike sym frame.1 (requeue request b side old left)
      (requeue (sym.replaceOrder frame.1 request) b (sym.side side)
        (sym.resting frame.1 old) right) := by
  have away := retoldWithdraw like asked.here side old.id
  have frames : (left.withdraw b side old.id).books.map Book.frame =
      left.books.map Book.frame := framesPut ..
  have askedAway : Asked sym (left.withdraw b side old.id) request b side old frame :=
    ⟨by rw [frames]; exact asked.here, asked.price, asked.inBand, asked.fits⟩
  obtain ⟨alike, taker, kept, price⟩ := retoldRequeueSweep away askedAway
  have fresh := @retoldReplacement sym request old frame.1 asked.fits
  rw [requeueEqSettle, requeueEqSettle]
  refine ⟨?_, retoldSettle alike (by rw [kept]; exact askedAway.here) taker
    (fun _ => by rw [price]; exact asked.inBand)⟩
  have events := alike.events
  simp only [show (sym.resting frame.1 old).id = sym.order old.id from rfl] at events ⊢
  rw [List.map_cons, List.map_cons, events]
  simp only [replacedMoment, fresh]
  rfl

theorem retoldReplaceOrder (like : Retold sym left right)
    (asked : Asked sym left request b side old frame) :
    SaidAlike sym frame.1 (replaceOrder request b side old left)
      (replaceOrder (sym.replaceOrder frame.1 request) b (sym.side side)
        (sym.resting frame.1 old) right) := by
  have spent := retoldSpend like request.newOrderId old.filledQty (sym.lot * old.filledQty)
  have fresh := @retoldReplacement sym request old frame.1 asked.fits
  have moved : (sym.replaceOrder frame.1 request).newPrice ≠ (sym.resting frame.1 old).price ↔
      request.newPrice ≠ old.price :=
    not_congr (samePriceIff like.lawful (List.mem_of_getElem? asked.here) asked.inBand asked.price)
  have more : (sym.resting frame.1 old).openQty <
      (sym.resting frame.1 (replacement request old)).openQty ↔
      old.openQty < (replacement request old).openQty := Nat.mul_lt_mul_left like.lawful.lot
  unfold replaceOrder
  simp only [fresh, moved, more]
  split
  · exact retoldRequeue spent ⟨asked.here, asked.price, asked.inBand, asked.fits⟩
  · refine ⟨by rw [List.map_singleton, List.map_singleton]; rfl, ?_⟩
    refine retoldPut spent b side ?_ (fun o member other there => ?_)
    · rw [show (sym.resting frame.1 old).id = sym.order old.id from rfl,
        show (right.spend (sym.replaceOrder frame.1 request).newOrderId
          (sym.resting frame.1 old).filledQty).orders b (sym.side side) =
          right.orders b (sym.side side) from rfl, retoldOrders like asked.here,
            retoldInstead like.lawful.order,
        show instrumentAt (left.spend request.newOrderId old.filledQty) b =
          left.instrumentAt b from rfl, instrumentOf asked.here]
      rfl
    · obtain rfl : frame = other := Option.some.inj (asked.here.symm.trans there)
      obtain ⟨o', member', same⟩ := List.mem_map.mp member
      split at same
      · rw [← same]
        exact asked.inBand
      · rw [← same]
        exact like.listed b side o' member' frame asked.here

theorem retoldReplace (like : Retold sym left right) (properLeft : left.Proper)
    (properRight : right.Proper) (fits : sym.lot * request.newQuantity.toNat < 2 ^ 32) :
    SaidAlike sym (left.subject (.replace request)) (replace request left)
      (replace (sym.replaceOrder (left.subject (.replace request)) request) right) := by
  have found' := retoldFindOpen like properLeft properRight request.orderId
  unfold replace subject
  simp only [like.configured]
  split
  · exact saidReject like _ _ _
  rw [show (sym.replaceOrder
    (((left.findOpen request.orderId).map (fun place => left.instrumentAt place.1)).getD 0)
    request).orderId =
    sym.order request.orderId from rfl, found']
  cases found : left.findOpen request.orderId with
  | none => exact saidReject like _ _ _
  | some place =>
    obtain ⟨b, side, old⟩ := place
    obtain ⟨member, same⟩ := (findOpenIff properLeft).mp found
    obtain ⟨frame, here⟩ := memberFrame member
    have fresh := @retoldReplacement sym request old frame.1 fits
    have nothing : (sym.resting frame.1 (replacement request old)).openQty = 0 ↔
        (replacement request old).openQty = 0 := by
      rw [show (sym.resting frame.1 (replacement request old)).openQty =
        sym.lot * (replacement request old).openQty from rfl,
        Nat.mul_eq_zero]
      exact or_iff_right (Nat.ne_of_gt like.lawful.lot)
    have used : ((sym.replaceOrder frame.1 request).newOrderId ≠ sym.order request.orderId ∧
        (sym.replaceOrder frame.1 request).newOrderId ∈ right.spent) ↔
          (request.newOrderId ≠ request.orderId ∧ request.newOrderId ∈ left.spent) :=
      and_congr (not_congr like.lawful.order.eq_iff) (like.spent _)
    have aligned : TickTable.isTickAligned kTickSchedule
        (sym.replaceOrder frame.1 request).newPrice =
        TickTable.isTickAligned kTickSchedule request.newPrice :=
          like.lawful.aligned frame (List.mem_of_getElem? here) _
    obtain ⟨frame', there, named⟩ := retoldFrame like here
    have outside : ((right.books[b]?).map (fun book =>
      outsideBand book (sym.replaceOrder frame.1 request).newPrice)).getD true =
        ((left.books[b]?).map (fun book => outsideBand book request.newPrice)).getD true := by
      have flip := not_congr (like.lawful.inside b frame frame' here there request.newPrice)
      rw [frameOutside, frameOutside, here, there,
        show (sym.replaceOrder frame.1 request).newPrice =
          sym.price frame.1 request.newPrice from rfl]
      simp only [Option.map_some, Option.getD_some, outsideBand]
      refine decide_eq_decide.mpr ?_
      simpa only [not_and_or, Int.not_le] using flip
    simp only [Option.map_some, Option.getD_some, instrumentOf here, fresh, nothing]
    split
    · exact retoldCancelOrder like here _ side old
    simp only [used]
    split
    · exact saidReject like _ _ _
    rw [aligned]
    split
    · exact saidReject like _ _ _
    rw [outside]
    split
    · exact saidReject like _ _ _
    · rename_i alignedPrice insideBand
      refine retoldReplaceOrder like ⟨here, like.listed b side old member frame here, ?_, fits⟩
      rw [frameOutside, here] at insideBand
      simp only [Option.map_some, Option.getD_some, outsideBand, decide_eq_true_eq, not_or,
        Int.not_lt] at insideBand
      exact ⟨by simpa using alignedPrice, insideBand.1, insideBand.2⟩

theorem retoldCancel (like : Retold sym left right) (properLeft : left.Proper)
    (properRight : right.Proper) (request : CancelOrder) (instrument : InstrumentId) :
    SaidAlike sym instrument (cancel request left) (cancel ⟨sym.order request.orderId⟩ right) := by
  have found' := retoldFindOpen like properLeft properRight request.orderId
  unfold cancel
  simp only [like.configured, found']
  split
  · exact saidReject like _ _ _
  cases found : left.findOpen request.orderId with
  | none => exact saidReject like _ _ _
  | some place =>
    obtain ⟨b, side, old⟩ := place
    obtain ⟨member, same⟩ := (findOpenIff properLeft).mp found
    obtain ⟨frame, here⟩ := memberFrame member
    simp only [Option.map_some, instrumentOf here]
    exact retoldCancelOrder like here _ side old

theorem retoldPerform {feasible : Feasible} (like : Retold sym left right)
    (properLeft : left.Proper) (properRight : right.Proper)
    (carries : sym.Carries (left.books.map Book.frame) feasible) {request : Request}
    (fits : sym.Fits request) :
    SaidAlike sym (left.subject request) (perform feasible request left)
      (perform feasible (sym.request (left.subject request) request) right) := by
  cases request with
  | submit order => exact retoldSubmit like carries fits
  | cancel request => exact retoldCancel like properLeft properRight request _
  | replace request => exact retoldReplace like properLeft properRight fits

theorem topLots (sym : Symmetry) (instrument : InstrumentId) (nothing : sym.price instrument 0 = 0)
    {orders : List Order}
    (same : ∀ o ∈ orders, ∀ o' ∈ orders,
      sym.price instrument o.price = sym.price instrument o'.price ↔ o.price = o'.price) :
    Book.top (orders.map (sym.resting instrument)) =
      (sym.price instrument (Book.top orders).1, sym.lot * (Book.top orders).2) := by
  cases orders with
  | nil => simp [Book.top, nothing]
  | cons first rest =>
    have level : ((first :: rest).map (sym.resting instrument)).filter (fun o =>
      o.price = sym.price instrument first.price) =
        ((first :: rest).filter (fun o => o.price = first.price)).map (sym.resting instrument) := by
      rw [List.filter_map]
      refine congrArg _ (List.filter_congr (fun o member => ?_))
      exact decide_eq_decide.mpr (same o member first List.mem_cons_self)
    have sum :=
      quantityLots sym instrument ((first :: rest).filter (fun o => o.price = first.price))
    rw [← level] at sum
    exact congrArg (Prod.mk _) sum

theorem quantityWraps (sym : Symmetry) (n : Nat) :
    UInt32.ofNat (sym.lot * n) = sym.quantity (UInt32.ofNat n) := by
  refine UInt32.toNat_inj.mp ?_
  simp only [quantity, UInt32.toNat_ofNat']
  exact Nat.mul_mod_mod .. |>.symm

theorem retoldTop (like : Retold sym left right)
    (here : (left.books.map Book.frame)[b]? = some frame) (side : Side) :
    Book.top (right.orders b (sym.side side)) =
      (sym.price frame.1 (Book.top (left.orders b side)).1,
        sym.lot * (Book.top (left.orders b side)).2) := by
  have listed : ∀ o ∈ left.orders b side, Listed frame o.price :=
    fun o member => like.listed b side o member frame here
  rw [retoldOrders like here]
  exact topLots sym frame.1 (like.lawful.nothing _)
    (fun o member o' member' => samePriceIff like.lawful (List.mem_of_getElem? here)
      (listed o member) (listed o' member'))

theorem retoldShown (like : Retold sym left right) (id : InstrumentId) :
    right.shownTop (sym.instrument id) = sym.top id (left.shownTop id) := by
  unfold shownTop
  rw [retoldIndex like]
  cases found : left.books.findIdx? (fun book => book.instrumentId = id) with
  | none =>
    simp only [top, like.lawful.nothing, quantity]
    split <;> simp
  | some b =>
    obtain ⟨inside, named, -⟩ := List.findIdx?_eq_some_iff_getElem.mp found
    obtain rfl : (left.books[b]).instrumentId = id := of_decide_eq_true named
    have here : (left.books.map Book.frame)[b]? = some (left.books[b]).frame := by simp [inside]
    have bids := retoldTop like here .buy
    have asks := retoldTop like here .sell
    cases flipped : sym.flipped with
    | false =>
      simp only [Symmetry.side, flipped, Bool.false_eq_true, if_false] at bids asks
      simp only [bids, asks, quantityWraps, top, flipped, Bool.false_eq_true, if_false]
      rfl
    | true =>
      simp only [Symmetry.side, flipped, if_true, Side.opposite] at bids asks
      simp only [bids, asks, quantityWraps, top, flipped, if_true]
      rfl

end Relating
end Venue
end Xmatch
