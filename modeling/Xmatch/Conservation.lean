import Xmatch.FillOrKill
import Xmatch.Ledger
import Xmatch.Requeueing

/-! Quantity is conserved: over any run the accounts kept from the events and the records of
the engine agree, to the lot. -/
namespace Xmatch

def Request.limit : Request → Option Int
  | .submit order => Venue.limitOf order
  | .cancel _ => none
  | .replace request => some request.newPrice

def Request.entering : Request → OrderId
  | .submit order => order.orderId
  | .cancel request => request.orderId
  | .replace request => request.newOrderId

def Event.isTrade : Event → Bool
  | .trade _ _ _ _ _ _ _ => true
  | _ => false

def Event.isCanceled : Event → Bool
  | .canceled _ _ _ => true
  | _ => false

namespace Venue

/- A trade as it is reported: the first order of the opposite side and the order in hand. -/
structure Trading (request : Request) (base : Venue) (moment : Moment) (b : Nat) (book : Book)
    (side : Side) (maker : Order) (rest : List Order) (venue : Venue) (taker : Order) : Prop where
  here : base.books[b]? = some book
  front : venue.orders b side.opposite = maker :: rest
  sorted : Sorted side.opposite (maker :: rest)
  is : moment = tradeMoment book.instrumentId side maker venue taker
  left : 0 < taker.openQty
  accepted : side.accepts request.limit maker.price = true
  keys : ∀ c s, ((venue.orders c s).map Order.key).Sublist ((base.orders c s).map Order.key)
  named : taker.id = request.entering
  outside : ∀ c s, ∀ o ∈ venue.orders c s, o.id ≠ taker.id
  frames : venue.books.map Book.frame = base.books.map Book.frame

theorem workTrades {b : Nat} {order : NewOrder} {base : Venue} :
    ∀ event ∈ (work b order base).1.map (·.event), event.isTrade = true := by
  intro event member
  obtain ⟨moment, worked, rfl⟩ := List.mem_map.mp member
  obtain ⟨_, _, _, _, _, _, _, _, rfl⟩ :=
    (@sweepSweeping b order.instrumentId order.side (limitOf order) base (takerOf order)).2
    moment worked
  rfl

section Trades
variable {venue base : Venue} {b : Nat} {side : Side} {request : Request} {book : Book}

theorem sweepingKeys {opposite : List Order} (sweeping : Sweeping b side base venue opposite)
    (c : Nat) (s : Side) :
    ((venue.orders c s).map Order.key).Sublist ((base.orders c s).map Order.key) := by
  by_cases there : c = b ∧ s = side.opposite
  · obtain ⟨rfl, rfl⟩ := there
    rw [sweeping.here]
    exact sweeping.suffix.sublist
  · rw [sweeping.others c s there]

theorem sweepMomentFrames {instrumentId : InstrumentId} {limit : Option Int} (orders : List Order)
    (taker : Order) :
    ∀ moment ∈ (sweep b instrumentId side limit orders base taker).1,
      moment.venue.books.map Book.frame = base.books.map Book.frame := by
  have swept :=
    @sweepInduct b instrumentId side limit (fun _ venue _ _ => venue.books.map Book.frame =
      base.books.map Book.frame)
    (fun _ _ _ _ _ same _ _ => (framesPut _ b side.opposite _).trans same) orders [] base taker rfl
  intro moment member
  obtain ⟨pre, post, split⟩ := List.append_of_mem member
  obtain ⟨maker, rest, next, left, same, _, _, trade⟩ := swept.2 pre moment post split
  rw [trade]
  exact same

theorem sweepTrading {limit : Option Int}
    (sorted : Sorted side.opposite (base.orders b side.opposite))
    (here : venue.books[b]? = some book) (is : limit = request.limit) (taker : Order)
    (named : taker.id = request.entering)
    (outside : ∀ c s, ∀ o ∈ base.orders c s, o.id ≠ request.entering)
    (within : ∀ c s, (base.orders c s).Sublist (venue.orders c s))
    (frames : base.books.map Book.frame = venue.books.map Book.frame) :
    ∀ moment ∈ (sweep b book.instrumentId side limit (base.orders b side.opposite) base taker).1,
      ∃ maker rest next left, Trading request venue moment b book side maker rest next left := by
  intro moment member
  obtain ⟨maker, rest, next, left, sweeping, same, active, accepted, trade⟩ :=
    (sweepSweeping base taker).2 moment member
  have kept := sweepMomentFrames _ taker moment member
  rw [trade] at kept
  refine ⟨maker, rest, next, left, here, sweeping.here, sortedKeys sorted sweeping.suffix, trade,
    active, is ▸ accepted, fun c s => (sweepingKeys sweeping c s).trans ((within c s).map _),
    same.trans named, fun c s o rests => ?_, kept.trans frames⟩
  obtain ⟨o', inBase, key⟩ :=
    List.mem_map.mp ((sweepingKeys sweeping c s).subset (List.mem_map_of_mem rests))
  have unlike := outside c s o' inBase
  rw [same, named]
  exact fun is => unlike ((congrArg Prod.fst key).trans is)

theorem freshInstrument {order : NewOrder} (fresh : Fresh venue order b book) :
    order.instrumentId = book.instrumentId := by
  have found := List.findIdx?_eq_some_iff_getElem.mp fresh.index
  obtain ⟨inside, named, _⟩ := found
  have here := List.getElem?_eq_some_iff.mp fresh.here
  obtain ⟨_, same⟩ := here
  rw [same] at named
  exact (of_decide_eq_true named).symm

theorem soleNoTrade {first moment : Moment} (silent : first.event.isTrade = false)
    (member : moment ∈ [first]) : moment.event.isTrade ≠ true := by
  rw [List.mem_singleton.mp member, silent]
  exact Bool.false_ne_true

theorem disposeTrades {order : NewOrder} {swept : List Moment × Sweep} {moment : Moment}
    (member : moment ∈ (dispose b order swept).1) (trade : moment.event.isTrade = true) :
    moment ∈ swept.1 := by
  simp only [dispose] at member
  by_cases left : 0 < swept.2.taker.openQty
  · simp only [left, if_true] at member
    split at member
    · exact member
    · rcases List.mem_append.mp member with before | last
      · exact before
      · exact absurd trade (soleNoTrade rfl last)
  · simp only [left, if_false] at member
    exact member

theorem performTrades (request : Request) (proper : venue.Proper) :
    ∀ moment ∈ (perform wrappedFill request venue).1,
    moment.event.isTrade = true →
      ∃ b book side maker rest next taker,
        Trading request venue moment b book side maker rest next taker := by
  have shape := performed wrappedFill request venue
  generalize perform wrappedFill request venue = result at shape
  intro moment member trade
  cases shape with
  | refused request id reason => exact absurd trade (soleNoTrade rfl member)
  | spoiled order b book reason fresh flaw => exact absurd trade (soleNoTrade rfl member)
  | killed order b book fresh valid fok short =>
    rcases List.mem_cons.mp member with rfl | last
    · contradiction
    · exact absurd trade (soleNoTrade rfl last)
  | worked order b book fresh valid enough =>
    rcases List.mem_cons.mp member with rfl | later
    · contradiction
    · have outside := unusedOutside proper fresh.unused
      have trades := @sweepTrading venue (venue.spend order.orderId 0) b order.side
          (.submit order) book (limitOf order)
        (proper.sorted b order.side.opposite) fresh.here rfl (takerOf order) rfl outside
        (fun c s => List.Sublist.refl _) rfl
      rw [← freshInstrument fresh] at trades
      exact ⟨b, book, order.side, trades moment (disposeTrades later trade)⟩
  | withdrawn request id b side old found leaves => exact absurd trade (soleNoTrade rfl member)
  | requeued request b side old book replacing loses =>
    rw [requeueEqSettle] at member
    rcases List.mem_cons.mp member with rfl | later
    · contradiction
    · have instrument : ((((venue.spend request.newOrderId old.filledQty).withdraw b side
        old.id).books[b]?).map
          (·.instrumentId)).getD 0 = book.instrumentId := requeueInstrument replacing
      rw [requeueSweep, instrument] at later
      split at later
      · have sorted := (withdrawProper proper b side old.id).sorted b side.opposite
        have outside := replacedOutside proper replacing
        exact ⟨b, book, side, @sweepTrading venue
          ((venue.spend request.newOrderId old.filledQty).withdraw b side old.id) b side
          (.replace request) book (some request.newPrice) sorted replacing.here rfl _ rfl outside
          (withdrawSubset venue b side old.id) (withdrawFrames venue b side old.id) moment later⟩
      · exact absurd later List.not_mem_nil
  | amended request b side old book replacing samePrice fewer =>
    exact absurd trade (soleNoTrade rfl member)

def RestsJust (venue : Venue) (id : OrderId) (qty : Nat) : Prop :=
  (qty = 0 ∧ ∀ b side, ∀ o ∈ venue.orders b side, o.id ≠ id) ∨ ∃ b side, ∃ o ∈ venue.orders b side,
    o.id = id ∧ o.openQty = qty

/- What a new order comes to: its trades, and then what is left rests or is canceled. -/
structure Ends (order : NewOrder) (events : List Event) (venue : Venue) : Prop where
  traded : tradedIn events ≤ order.quantity.toNat
  day : order.tif = .day → RestsJust venue order.orderId (order.quantity.toNat - tradedIn events) ∧
    events.filter Event.isCanceled = []
  other : order.tif ≠ .day → RestsJust venue order.orderId 0 ∧ ∃ reason,
    events.filter Event.isCanceled =
    if tradedIn events < order.quantity.toNat then
      [.canceled order.orderId (order.quantity.toNat - tradedIn events) reason] else []

end Trades

end Venue

namespace Engine
open OrderBook

section Resting
variable {engine : Engine} {venue : Venue} {b : Nat} {side : Side} {id : OrderId}

end Resting

/- The record of the id can trade so much: its quantities neither wrap below nor above. -/
def CanTrade (engine : Engine) (id : OrderId) (qty : Nat) : Prop :=
  ∃ slot, engine.orderIndex.find id = some slot ∧ (engine.pool.get slot).id = id ∧
    qty ≤ (engine.pool.get slot).openQty.toNat ∧
    (engine.pool.get slot).filledQty.toNat + qty < 2 ^ 32

def TradeFits (callback : Callback) : Prop :=
  match callback.event with
  | .trade _ _ _ qty resting aggressive _ =>
    0 < qty ∧ resting ≠ aggressive ∧ CanTrade callback.seen resting qty ∧
      CanTrade callback.seen aggressive qty
  | _ => True

section Calls
variable {engine : Engine} {venue : Venue} {request : Request} {ledger : Ledger}

theorem callbackFits {callback : Callback} {moment : Moment} (follows : Follows callback moment)
    {b : Nat} {book : Book} {side : Side} {maker taker : Order} {rest : List Order} {next : Venue}
    (trading : Venue.Trading request venue moment b book side maker rest next taker) :
    TradeFits callback := by
  obtain ⟨slot, instrumentId, waiting⟩ := follows.working taker (by rw [trading.is]; rfl)
  have sim := follows.sim
  have fits := waiting.fits
  have front : maker ∈ next.orders b side.opposite := by
    rw [trading.front]
    exact List.mem_cons_self
  rw [trading.is] at sim
  obtain ⟨queues, rep, live, view⟩ := sim
  obtain ⟨inside, level, resting, queued, is⟩ := (orderSlot rep view).mp front
  have indexed := rep.indexed b inside side.opposite level resting queued
  have lively := live b inside side.opposite level resting queued
  have home := (rep.shape b inside).home side.opposite level resting queued
  have two : maker.id ≠ taker.id := by
    intro same
    have found := waiting.indexed
    rw [← same, is] at found
    cases Option.some.inj (indexed.symm.trans found)
    exact Bool.false_ne_true (waiting.idle.symm.trans home.isOpen)
  have open' : (callback.seen.pool.get resting).openQty.toNat = maker.openQty := by rw [is]; rfl
  have filled : (callback.seen.pool.get resting).filledQty.toNat =
      maker.filledQty := by rw [is]; rfl
  have named : (callback.seen.pool.get resting).id = maker.id := by rw [is]; rfl
  have left := trading.left
  have left' := lively.left
  have fits' := lively.fits
  rw [named] at indexed
  rw [TradeFits, follows.event, trading.is]
  refine ⟨by omega, two, ⟨resting, indexed, named, by omega, by omega⟩,
    ⟨slot, waiting.indexed, waiting.id, ?_, ?_⟩⟩
  · rw [waiting.openQty]
    omega
  · rw [waiting.filledQty]
    omega

end Calls

end Engine
end Xmatch
