import Xmatch.Resting
import Xmatch.VenueSteps

/-! The book is never locked or crossed, at no callback and after no call. -/
namespace Xmatch

namespace Venue

def Uncrossed (venue : Venue) : Prop :=
  ∀ b, ∀ bid ∈ venue.orders b .buy, ∀ ask ∈ venue.orders b .sell, bid.price < ask.price

/- Every order of the one is, up to what is left of it, an order of the other. -/
def Within (venue base : Venue) : Prop :=
  ∀ b side, ∀ order ∈ venue.orders b side, ∃ o ∈ base.orders b side, o.id = order.id ∧
    o.price = order.price

section Crossing
variable {venue base : Venue} {b : Nat} {side : Side} {order old : Order} {maker : Order}
  {rest : List Order}

theorem uncrossedIff : Uncrossed venue ↔ ∀ b side, ∀ own ∈ venue.orders b side,
    ∀ other ∈ venue.orders b side.opposite,
    side.accepts (some own.price) other.price = false := by
  constructor
  · intro uncrossed b side own inOwn other inOther
    cases side
    · have := uncrossed b own inOwn other inOther
      simp only [Side.accepts, decide_eq_false_iff_not]
      omega
    · have := uncrossed b other inOther own inOwn
      simp only [Side.accepts, decide_eq_false_iff_not]
      omega
  · intro refused b bid inBids ask inAsks
    have := refused b .buy bid inBids ask inAsks
    simp only [Side.accepts, decide_eq_false_iff_not] at this
    omega

theorem uncrossedWithin (uncrossed : Uncrossed base) (within : Within venue base) :
    Uncrossed venue := by
  intro b bid inBids ask inAsks
  obtain ⟨o, inBase, _, samePrice⟩ := within b .buy bid inBids
  obtain ⟨p, inBase', _, samePrice'⟩ := within b .sell ask inAsks
  rw [← samePrice, ← samePrice']
  exact uncrossed b o inBase p inBase'

theorem sweepingWithin {opposite : List Order} (sweeping : Sweeping b side base venue opposite) :
    Within venue base := by
  intro c s order member
  by_cases here : c = b ∧ s = side.opposite
  · obtain ⟨rfl, rfl⟩ := here
    rw [sweeping.here] at member
    exact keyMember sweeping.suffix member
  · rw [sweeping.others c s here] at member
    exact ⟨order, member, rfl, rfl⟩

theorem withdrawWithin (venue : Venue) (b : Nat) (side : Side) (id : OrderId) :
    Within (venue.withdraw b side id) venue := by
  intro c s order member
  rw [withdraw, ordersPutSide] at member
  split at member
  · rename_i here
    obtain ⟨rfl, rfl, -⟩ := here
    exact ⟨order, (memWithout.mp member).1, rfl, rfl⟩
  · exact ⟨order, member, rfl, rfl⟩

theorem uncrossedRest (uncrossed : Uncrossed venue)
    (refused : ∀ other ∈ venue.orders b side.opposite,
      side.accepts (some order.price) other.price = false) :
    Uncrossed (venue.putSide b side (enqueue side order (venue.orders b side))) := by
  rw [uncrossedIff] at uncrossed ⊢
  have reverse : ∀ other ∈ venue.orders b side.opposite,
      side.opposite.accepts (some other.price) order.price = false := by
    intro other member
    have := refused other member
    cases side <;> simp only [Side.accepts, Side.opposite,
      decide_eq_false_iff_not] at this ⊢ <;> omega
  intro c s own inOwn other inOther
  rw [ordersPutSide] at inOwn inOther
  by_cases here : c = b ∧ s = side ∧ b < venue.books.length
  · obtain ⟨rfl, rfl, inside⟩ := here
    rw [if_neg (fun h => Side.oppositeNe s h.2.1)] at inOther
    rw [if_pos ⟨rfl, rfl, inside⟩, memEnqueue] at inOwn
    rcases inOwn with rfl | before
    · exact refused other inOther
    · exact uncrossed c s own before other inOther
  · rw [if_neg here] at inOwn
    by_cases there : c = b ∧ s.opposite = side ∧ b < venue.books.length
    · obtain ⟨rfl, rfl, inside⟩ := there
      rw [if_pos ⟨rfl, rfl, inside⟩, memEnqueue] at inOther
      rw [Side.oppositeOpposite] at reverse
      rcases inOther with rfl | before
      · exact reverse own inOwn
      · exact uncrossed c s own inOwn other before
    · rw [if_neg there] at inOther
      exact uncrossed c s own inOwn other inOther

theorem sweepRefuses {instrumentId : InstrumentId} {limit : Option Int}
    (sorted : Sorted side.opposite (base.orders b side.opposite)) (taker : Order) :
    (sweep b instrumentId side limit (base.orders b side.opposite) base taker).2.taker.openQty = 0 ∨
      ∀ other ∈ (sweep b instrumentId side limit (base.orders b side.opposite)
          base taker).2.venue.orders b side.opposite,
        side.accepts limit other.price = false := by
  have sweeping := (@sweepSweeping b instrumentId side limit base taker).1
  refine (sweepStops (base.orders b side.opposite) base taker).imp_right (fun first => ?_)
  rw [sweeping.here]
  exact sortedRefused (sortedKeys sorted sweeping.suffix) first

theorem sweepUncrossed {instrumentId : InstrumentId} {limit : Option Int}
    (uncrossed : Uncrossed base) (taker : Order) :
    Uncrossed (sweep b instrumentId side limit (base.orders b side.opposite) base taker).2.venue ∧
      ∀ moment ∈ (sweep b instrumentId side limit (base.orders b side.opposite) base taker).1,
        Uncrossed moment.venue := by
  obtain ⟨final, trades⟩ := @sweepSweeping b instrumentId side limit base taker
  refine ⟨uncrossedWithin uncrossed (sweepingWithin final), fun moment member => ?_⟩
  obtain ⟨maker, rest, venue, left, sweeping, _, _, _, rfl⟩ := trades moment member
  have same : Uncrossed venue := uncrossedWithin uncrossed (sweepingWithin sweeping)
  exact same

theorem dayLimit {book : Book} {order : NewOrder} (valid : invalid book order = none)
    (day : order.tif = .day) : limitOf order = some order.price := by
  unfold invalid at valid
  split at valid
  · contradiction
  split at valid
  · contradiction
  · rename_i immediate
    exact if_neg (fun market => immediate ⟨market, day⟩)

theorem takerLimit {order : NewOrder} {price : Int} (limit : limitOf order = some price) :
    limitOf order = some (takerOf order).price := by
  rw [takerOf, limit]
  rfl

theorem performUncrossed (request : Request) (proper : venue.Proper) (uncrossed : Uncrossed venue) :
    Uncrossed (perform wrappedFill request venue).2 ∧
      ∀ moment ∈ (perform wrappedFill request venue).1, Uncrossed moment.venue := by
  have shape := performed wrappedFill request venue
  generalize perform wrappedFill request venue = result at shape
  cases shape with
  | refused request id reason => exact ⟨uncrossed, by simpa [reject] using uncrossed⟩
  | spoiled order b book reason fresh flaw =>
    have same : Uncrossed (venue.spend order.orderId 0) := uncrossed
    exact ⟨same, by simpa [reject] using same⟩
  | killed order b book fresh valid fok short =>
    have same : Uncrossed (venue.spend order.orderId 0) := uncrossed
    exact ⟨same, by simpa [acceptedMoment] using same⟩
  | worked order b book fresh valid enough =>
    have same : Uncrossed (venue.spend order.orderId 0) := uncrossed
    have sorted : Sorted order.side.opposite
        ((venue.spend order.orderId 0).orders b order.side.opposite) :=
      proper.sorted b order.side.opposite
    obtain ⟨final, trades⟩ := @sweepUncrossed _ b order.side order.instrumentId (limitOf order) same
      (takerOf order)
    have stops := @sweepRefuses _ b order.side order.instrumentId (limitOf order) sorted
        (takerOf order)
    have taker := @sweepTaker b order.instrumentId order.side (limitOf order)
      ((venue.spend order.orderId 0).orders b order.side.opposite) (venue.spend order.orderId 0)
      (takerOf order)
    change Uncrossed (work b order (venue.spend order.orderId 0)).2.venue at final
    change ∀ moment ∈ (work b order (venue.spend order.orderId 0)).1, _ at trades
    simp only [dispose, List.forall_mem_cons]
    split
    · rename_i left
      split
      · rename_i day
        refine ⟨uncrossedRest final ?_, same, trades⟩
        have limit := takerLimit (dayLimit valid day)
        rw [limit] at stops taker
        rcases stops with done | refused
        · rw [← limit] at done
          exact absurd left (by rw [work, done]; omega)
        · rw [work, limit, taker.2]
          exact refused
      · refine ⟨final, same, fun moment member => ?_⟩
        rcases List.mem_append.mp member with before | last
        · exact trades moment before
        · rw [List.mem_singleton.mp last]
          exact final
    · exact ⟨final, same, trades⟩
  | withdrawn request id b side old found leaves =>
    have left := uncrossedWithin uncrossed (withdrawWithin venue b side old.id)
    exact ⟨left, by simpa [cancelOrder] using left⟩
  | requeued request b side old book replacing loses =>
    obtain ⟨_, member, _⟩ := findOpenRests replacing.found
    obtain ⟨base, baseIs⟩ : ∃ base,
      base = (venue.spend request.newOrderId old.filledQty).withdraw b side old.id := ⟨_, rfl⟩
    have within : Within base venue := by
      rw [baseIs]
      exact withdrawWithin (venue.spend request.newOrderId old.filledQty) b side old.id
    have same : Uncrossed base := uncrossedWithin uncrossed within
    have apart : base.orders b side.opposite = venue.orders b side.opposite := by
      rw [baseIs, withdraw, ordersPutSide, if_neg (fun h => Side.oppositeNe side h.2.1)]
      rfl
    unfold requeue
    simp only [← baseIs]
    by_cases moved : request.newPrice = old.price
    · have refused : ∀ other ∈ base.orders b side.opposite,
          side.accepts (some (replacement request old).price) other.price = false := by
        rw [apart]
        intro other inOther
        have price : (replacement request old).price = old.price := moved
        rw [price]
        exact uncrossedIff.mp uncrossed b side old member other inOther
      simp only [moved, ne_eq, not_true, if_false]
      split
      · exact ⟨uncrossedRest same refused, List.forall_mem_singleton.mpr same⟩
      · exact ⟨same, List.forall_mem_singleton.mpr same⟩
    · have sorted : Sorted side.opposite (base.orders b side.opposite) := by
        rw [apart]
        exact proper.sorted b side.opposite
      simp only [ne_eq, moved, not_false_eq_true, if_true]
      obtain ⟨final, trades⟩ :=
        @sweepUncrossed _ b side (((base.books[b]?).map (·.instrumentId)).getD 0)
        (some request.newPrice) same (replacement request old)
      have stops := @sweepRefuses _ b side (((base.books[b]?).map (·.instrumentId)).getD 0)
          (some request.newPrice) sorted
        (replacement request old)
      have taker := @sweepTaker b (((base.books[b]?).map (·.instrumentId)).getD 0) side
          (some request.newPrice)
        (base.orders b side.opposite) base (replacement request old)
      split
      · rename_i left
        refine ⟨uncrossedRest final ?_, List.forall_mem_cons.mpr ⟨same, trades⟩⟩
        rcases stops with done | refused
        · omega
        · rw [taker.2]
          exact refused
      · exact ⟨final, List.forall_mem_cons.mpr ⟨same, trades⟩⟩
  | amended request b side old book replacing samePrice fewer =>
    obtain ⟨_, member, _⟩ := findOpenRests replacing.found
    have inside : ∀ c s, ∀ order ∈ ((venue.spend request.newOrderId old.filledQty).putSide b side
        (instead old.id (replacement request old) (venue.orders b side))).orders c s,
        ∃ o ∈ venue.orders c s, o.price = order.price := by
      intro c s order listed
      rw [ordersPutSide] at listed
      split at listed
      · rename_i here
        obtain ⟨rfl, rfl, -⟩ := here
        obtain ⟨o, inOrders, same⟩ := List.mem_map.mp listed
        split at same
        · rw [← same]
          exact ⟨old, member, samePrice.symm⟩
        · exact ⟨o, inOrders, by rw [same]⟩
      · exact ⟨order, listed, rfl⟩
    have after : Uncrossed ((venue.spend request.newOrderId old.filledQty).putSide b side
        (instead old.id (replacement request old) (venue.orders b side))) := by
      intro c bid inBids ask inAsks
      obtain ⟨o, inVenue, price⟩ := inside c .buy bid inBids
      obtain ⟨p, inVenue', price'⟩ := inside c .sell ask inAsks
      rw [← price, ← price']
      exact uncrossed c o inVenue p inVenue'
    exact ⟨after, by simpa [replacedMoment] using after⟩

end Crossing

theorem openedOrders (instruments : List InstrumentConfig) (b : Nat) (side : Side) :
    (opened instruments).orders b side = [] := by
  rw [orders, opened, List.getElem?_map]
  cases instruments[b]? <;> cases side <;> rfl

theorem blankOrders (b : Nat) (side : Side) : ({} : Venue).orders b side = [] := rfl

theorem keptUncrossed : Engine.Kept Uncrossed := by
  refine ⟨fun b bid member => by contradiction, fun instruments b bid member => ?_,
    fun venue request proper holds => (performUncrossed request proper holds).2,
    fun venue request proper holds => (performUncrossed request proper holds).1⟩
  rw [openedOrders] at member
  contradiction

end Venue

namespace Engine

def NeverCrossed (engine : Engine) : Prop :=
  ∀ id, ∀ bid ∈ resting engine id .buy, ∀ ask ∈ resting engine id .sell, bid.price < ask.price

theorem simNeverCrossed {engine : Engine} {venue : Venue} (sim : Sim engine venue)
    (uncrossed : venue.Uncrossed) : NeverCrossed engine := by
  intro id bid inBids ask inAsks
  obtain ⟨b, found, bidRests⟩ := restingOrder sim inBids
  obtain ⟨c, found', askRests⟩ := restingOrder sim inAsks
  cases Option.some.inj (found.symm.trans found')
  exact uncrossed b bid.order bidRests ask.order askRests

theorem neverLockedOrCrossed (actions : List Action) (roomy : Roomy (after actions)) :
    NeverCrossed (after actions) ∧ ∀ env request,
      NeverCrossed (call env request (after actions)).engine ∧
        ∀ callback ∈ (call env request (after actions)).log, NeverCrossed callback.seen := by
  obtain ⟨venue, sim, holds⟩ := reached Venue.keptUncrossed actions roomy
  refine ⟨simNeverCrossed sim holds, fun env request => ⟨?_, fun callback member => ?_⟩⟩
  · obtain ⟨venue', outcome⟩ := callOutcome sim roomy.slots env request
    exact simNeverCrossed (outcomeSim outcome)
      (keptOutcome Venue.keptUncrossed (simProper sim) holds outcome)
  · obtain ⟨venue', sim', holds'⟩ :=
      reachedSeen Venue.keptUncrossed roomy env request callback member
    exact simNeverCrossed sim' holds'

theorem restingPairNeverCrossed :
    NeverCrossed (after (calmRun [⟨7, 100000, 1000⟩]
      [.submit ⟨1, 7, .sell, .limit, .day, 100100, 5⟩,
        .submit ⟨2, 7, .buy, .limit, .day, 100000, 5⟩])) ∧
      ∀ env request,
        NeverCrossed (call env request (after (calmRun [⟨7, 100000, 1000⟩]
          [.submit ⟨1, 7, .sell, .limit, .day, 100100, 5⟩,
            .submit ⟨2, 7, .buy, .limit, .day, 100000, 5⟩]))).engine ∧
        ∀ callback ∈ (call env request (after (calmRun [⟨7, 100000, 1000⟩]
          [.submit ⟨1, 7, .sell, .limit, .day, 100100, 5⟩,
            .submit ⟨2, 7, .buy, .limit, .day, 100000, 5⟩]))).log,
          NeverCrossed callback.seen :=
  neverLockedOrCrossed _ (roomyOf (by decide +kernel) (by decide +kernel))

end Engine
end Xmatch
