import Xmatch.Requeueing
import Xmatch.Starvation

/-! A replace whose listener throws: which orders stay on the book, and which are lost. -/
namespace Xmatch

namespace Venue

section Sweeps
variable {b : Nat} {instrumentId : InstrumentId} {side : Side} {limit : Option Int} {maker : Order}
  {rest : List Order}

theorem sortedEligible (sorted : Sorted side.opposite (maker :: rest))
    (refused : side.accepts limit maker.price = false) : eligible side limit (maker :: rest) = [] :=
  eligibleNone (sortedRefused sorted (fun first member => by
    cases Option.some.inj member
    exact refused))

theorem eligibleMore (accepted : side.accepts limit maker.price = true) :
    eligible side limit (maker :: rest) = maker :: eligible side limit rest :=
  List.filter_cons_of_pos accepted

theorem tradeQuantity (side : Side) (maker : Order) (venue : Venue) (taker : Order)
    (events : List Event) :
    tradedIn ((tradeMoment instrumentId side maker venue taker).event :: events) =
      min taker.openQty maker.openQty + tradedIn events := by
  simp [tradedIn, tradeMoment, Event.tradedQty]

theorem sweepTake : ∀ (orders : List Order) (venue : Venue) (taker : Order) (k : Nat),
    Sorted side.opposite orders →
    tradedIn (((sweep b instrumentId side limit orders venue taker).1.take k).map (·.event)) =
      min taker.openQty (quantityOf ((eligible side limit orders).take k))
  | [], venue, taker, k, _ => by simp [sweep, eligible, tradedIn, quantityOf]
  | maker :: rest, venue, taker, k, sorted => by
    by_cases active : 0 < taker.openQty
    · cases accepted : side.accepts limit maker.price with
      | false =>
        rw [sweepRefused accepted, sortedEligible sorted accepted]
        simp [tradedIn, quantityOf]
      | true =>
        rw [eligibleMore accepted]
        cases k with
        | zero => simp [tradedIn, quantityOf]
        | succ k =>
          have later := sweepTake rest (tradeStep b side maker rest venue taker).venue
            (tradeStep b side maker rest venue taker).taker k sorted.tail
          simp only [sweep, active, accepted, and_self, if_true]
          by_cases closes : maker.openQty ≤ taker.openQty
          · simp only [closes, if_true, List.take_succ_cons, List.map_cons, tradeQuantity, later,
              quantityOf, List.sum_cons]
            simp only [tradeStep, Order.fill]
            omega
          · simp only [closes, if_false, List.take_succ_cons, List.take_nil, List.map_cons,
              List.map_nil, tradeQuantity, quantityOf, List.sum_cons]
            simp only [tradedIn, List.map_nil, List.sum_nil]
            omega
    · rw [sweepIdle (by omega)]
      simp only [List.take_nil, List.map_nil, tradedIn, List.sum_nil]
      omega

theorem sweepCount : ∀ (orders : List Order) (venue : Venue) (taker : Order),
    Sorted side.opposite orders →
    (sweep b instrumentId side limit orders venue taker).1.length ≤
      (eligible side limit orders).length ∧
      ((sweep b instrumentId side limit orders venue taker).1.length =
        (eligible side limit orders).length ∨
        (sweep b instrumentId side limit orders venue taker).2.taker.openQty = 0)
  | [], venue, taker, _ => ⟨Nat.le_refl _, .inl rfl⟩
  | maker :: rest, venue, taker, sorted => by
    by_cases active : 0 < taker.openQty
    · cases accepted : side.accepts limit maker.price with
      | false =>
        rw [sweepRefused accepted, sortedEligible sorted accepted]
        exact ⟨Nat.le_refl _, .inl rfl⟩
      | true =>
        obtain ⟨short, done⟩ := sweepCount rest (tradeStep b side maker rest venue taker).venue
          (tradeStep b side maker rest venue taker).taker sorted.tail
        simp only [sweep, active, accepted, and_self, if_true, eligibleMore accepted,
          List.length_cons]
        by_cases closes : maker.openQty ≤ taker.openQty
        · simp only [closes, if_true, List.length_cons]
          exact ⟨by omega, done.imp_left (congrArg (· + 1))⟩
        · simp only [closes, if_false, List.length_singleton, tradeStep, Order.fill]
          exact ⟨by omega, .inr (by omega)⟩
    · rw [sweepIdle (by omega)]
      exact ⟨Nat.zero_le _, .inr (Nat.eq_zero_of_not_pos active)⟩

end Sweeps

theorem reactAt (n : Nat) (result : List Moment × Venue) :
    react (fun events => decide (events.length = n + 1)) result =
      match result.1[n]? with
      | some moment => ((result.1.map (·.event)).take (n + 1), moment.venue)
      | none => (result.1.map (·.event), result.2) := by
  have throws : ∀ k ∈ List.range result.1.length,
      decide (((result.1.map (·.event)).take (k + 1)).length = n + 1) = decide (k = n) := by
    intro k inside
    have := List.mem_range.mp inside
    rw [decide_eq_decide, List.length_take, List.length_map]
    omega
  have first : (List.range result.1.length).find? (fun k =>
    decide (((result.1.map (·.event)).take (k + 1)).length = n + 1)) =
      if n < result.1.length then some n else none := by
    split
    · rename_i inside
      refine List.find?_range_eq_some.mpr ⟨?_, List.mem_range.mpr inside, fun k below => ?_⟩
      · rw [throws n (List.mem_range.mpr inside), decide_eq_true_eq]
      · rw [throws k (List.mem_range.mpr (by omega)), Bool.not_eq_true', decide_eq_false_iff_not]
        omega
    · refine List.find?_eq_none.mpr (fun k member => ?_)
      have := List.mem_range.mp member
      rw [throws k member, decide_eq_true_eq]
      omega
  rw [react, first]
  by_cases inside : n < result.1.length
  · simp [inside]
  · simp [inside]

theorem reactOne (n : Nat) (moment : Moment) :
    react (fun events => decide (events.length = n + 1)) ([moment], moment.venue) =
      ([moment.event], moment.venue) := by
  rw [reactAt]
  cases n with
  | zero => rfl
  | succ n => rfl

section Interrupting
variable {venue : Venue} {request : ReplaceOrder} {b : Nat} {side : Side} {old : Order}
  {book : Book}

def met (venue : Venue) (request : ReplaceOrder) (b : Nat) (side : Side) : List Order :=
  eligible side (some request.newPrice) (venue.orders b side.opposite)

theorem outsideBook (proper : venue.Proper) (replacing : Replacing venue request b side old book)
    {other : Venue} (within : Within other (venue.withdraw b side old.id)) :
    ∀ c s, ∀ o ∈ other.orders c s, o.id ≠ request.orderId ∧ o.id ≠ request.newOrderId := by
  obtain ⟨_, rests, named⟩ := findOpenRests replacing.found
  have gone : ∀ c s, ∀ o ∈ (venue.withdraw b side old.id).orders c s, o ∈ venue.orders c s ∧
      o.id ≠ request.orderId := by
    intro c s o member
    rw [withdraw, ordersPutSide] at member
    split at member
    · rename_i here
      obtain ⟨rfl, rfl, _⟩ := here
      rw [← named]
      exact memWithout.mp member
    · rename_i elsewhere
      refine ⟨member, fun same => elsewhere ?_⟩
      obtain ⟨rfl, rfl⟩ := proper.once c b s side o member old rests (same.trans named.symm)
      exact ⟨rfl, rfl, ordersInside rests⟩
  intro c s o member
  obtain ⟨o', member', same, _⟩ := within c s o member
  obtain ⟨was, other⟩ := gone c s o' member'
  rw [← same]
  refine ⟨other, fun new => ?_⟩
  by_cases renamed : request.newOrderId = request.orderId
  · exact other (new.trans renamed)
  · exact replacing.unused renamed (new ▸ proper.known c s o' was)

def Holds (venue : Venue) (id : OrderId) (qty : Nat) : Prop := ∃ b side, ∃ o ∈ venue.orders b side,
    o.id = id ∧ o.openQty = qty

def Carried (request : ReplaceOrder) (old : Order) (shown : List Event × Venue) : Prop :=
  (replacement request old).openQty - tradedIn shown.1 = 0 ∨
    shown.2.Holds request.newOrderId ((replacement request old).openQty - tradedIn shown.1)

theorem replacedQuantity (request : ReplaceOrder) (fresh : Order) (venue : Venue)
    (working : Option Order) (moments : List Moment) :
    tradedIn ((replacedMoment request fresh venue working :: moments).map (·.event)) =
      tradedIn (moments.map (·.event)) := by
  simp [tradedIn, replacedMoment, Event.tradedQty]

def Survives (request : ReplaceOrder) (old : Order) (shown : List Event × Venue) : Prop :=
  (∃ qty, shown.2.Holds request.orderId qty) ∨ Carried request old shown

theorem cutShort (proper : venue.Proper) (replacing : Replacing venue request b side old book)
    {shown : List Event × Venue} (within : Within shown.2 (venue.withdraw b side old.id))
    (survives : Survives request old shown) :
    (replacement request old).openQty ≤ tradedIn shown.1 := by
  have outside := outsideBook proper replacing within
  rcases survives with ⟨qty, c, s, o, member, same, _⟩ | none | ⟨c, s, o, member, same, _⟩
  · exact absurd same (outside c s o member).1
  · omega
  · exact absurd same (outside c s o member).2

theorem settledCarries {swept : Sweep} (inside : b < swept.venue.books.length)
    (named : swept.taker.id = request.newOrderId) {events : List Event}
    (sum : tradedIn events + swept.taker.openQty = (replacement request old).openQty) :
    Carried request old (events, settle b side swept) := by
  have left : (replacement request old).openQty - tradedIn events = swept.taker.openQty := by omega
  rw [Carried]
  simp only [left]
  by_cases some : 0 < swept.taker.openQty
  · refine .inr ⟨b, side, swept.taker, ?_, named, rfl⟩
    rw [settle, if_pos some, ordersPutSide, if_pos ⟨rfl, rfl, inside⟩]
    exact memEnqueue.mpr (.inl rfl)
  · exact .inl (Nat.eq_zero_of_not_pos some)

theorem requeueReacts (proper : venue.Proper) (uncrossed : Uncrossed venue)
    (replacing : Replacing venue request b side old book)
    (n : Nat) (shown : List Event × Venue)
    (reacts : shown = react (fun events => decide (events.length = n + 1))
      (requeue request b side old (venue.spend request.newOrderId old.filledQty))) :
    (Survives request old shown → (met venue request b side).length < n ∨
        (replacement request old).openQty ≤ quantityOf ((met venue request b side).take n)) ∧
      ((met venue request b side).length < n ∨
        (replacement request old).openQty ≤ quantityOf ((met venue request b side).take n) →
        Carried request old shown) := by
  have opposite : ((venue.spend request.newOrderId old.filledQty).withdraw b side old.id).orders b
      side.opposite =
      venue.orders b side.opposite := by
    rw [withdraw, ordersPutSide, if_neg (fun h => by cases side <;> cases h.2.1)]
    rfl
  have sorted := proper.sorted b side.opposite
  rw [requeueSweeps uncrossed replacing _ rfl, reactAt, opposite] at reacts
  have taken :=
    @sweepTake b book.instrumentId side (some request.newPrice) (venue.orders b side.opposite)
    ((venue.spend request.newOrderId old.filledQty).withdraw b side old.id)
    (replacement request old) n sorted
  obtain ⟨short, done⟩ := @sweepCount b book.instrumentId side (some request.newPrice)
    (venue.orders b side.opposite)
    ((venue.spend request.newOrderId old.filledQty).withdraw b side old.id)
    (replacement request old) sorted
  have total := @sweepTraded b book.instrumentId side (some request.newPrice)
      (venue.orders b side.opposite)
    ((venue.spend request.newOrderId old.filledQty).withdraw b side old.id)
    (replacement request old)
  have sweeping := @sweepSweeping b book.instrumentId side (some request.newPrice)
    ((venue.spend request.newOrderId old.filledQty).withdraw b side old.id)
    (replacement request old)
  rw [opposite] at sweeping
  have taker :=
    (@sweepTaker b book.instrumentId side (some request.newPrice) (venue.orders b side.opposite)
    ((venue.spend request.newOrderId old.filledQty).withdraw b side old.id)
    (replacement request old)).1
  simp only [met]
  have size : b < venue.books.length := (List.getElem?_eq_some_iff.mp replacing.here).1
  generalize sweep b book.instrumentId side (some request.newPrice) (venue.orders b side.opposite)
    ((venue.spend request.newOrderId old.filledQty).withdraw b side old.id)
    (replacement request old) = swept at *
  rcases Nat.lt_or_ge swept.1.length n with past | reached
  · -- the listener never throws
    have none : (replacedMoment request (replacement request old)
        ((venue.spend request.newOrderId old.filledQty).withdraw b side old.id)
        (some (replacement request old)) :: swept.1)[n]? =
        none := List.getElem?_eq_none past
    rw [none] at reacts
    have length : swept.2.venue.books.length = venue.books.length := by
      rw [sweeping.1.length]
      exact List.length_modify ..
    have sum : tradedIn shown.1 + swept.2.taker.openQty = (replacement request old).openQty := by
      rw [reacts]
      exact (congrArg (· + swept.2.taker.openQty) (replacedQuantity ..)).trans total
    have carried := @settledCarries request b side old swept.2 (by omega) taker _ sum
    subst reacts
    refine ⟨fun _ => ?_, fun _ => carried⟩
    rcases done with all | spent
    · exact .inl (by omega)
    · rw [List.take_of_length_le (by omega)] at taken
      exact .inr (by omega)
  · -- it throws with the order off the book
    obtain ⟨moment, here⟩ : ∃ moment, (replacedMoment request (replacement request old)
        ((venue.spend request.newOrderId old.filledQty).withdraw b side old.id)
        (some (replacement request old)) :: swept.1)[n]? =
        some moment := ⟨_, List.getElem?_eq_getElem (Nat.lt_succ_of_le reached)⟩
    have within : Within moment.venue (venue.withdraw b side old.id) := by
      cases n with
      | zero =>
        cases Option.some.inj here
        exact fun _ _ order member => ⟨order, member, rfl, rfl⟩
      | succ n =>
        obtain ⟨maker, rest, at', left, swept', _, _, _, same⟩ :=
          sweeping.2 moment (List.mem_of_getElem? here)
        rw [same]
        exact fun c s o member => sweepingWithin swept' c s o member
    rw [here] at reacts
    have events : tradedIn shown.1 = tradedIn ((swept.1.take n).map (·.event)) := by
      rw [reacts]
      simp only [List.map_cons, List.take_succ_cons, ← List.map_take]
      exact replacedQuantity ..
    rw [taken] at events
    constructor
    · intro survives
      have enough := cutShort proper replacing (by rw [reacts]; exact within) survives
      exact .inr (by omega)
    · intro enough
      exact .inl (by omega)

end Interrupting

end Venue

namespace Engine
open OrderBook Effect

def queuedOrders (engine : Engine) (b : Nat) (side : Side) : List Order :=
  ((levelOrder side (engine.books.read b).levelCount).flatMap (levelSlots engine b side)).map
    (viewOrder engine.pool)

def OnBook (engine : Engine) (id : OrderId) (qty : Nat) : Prop :=
  ∃ b < engine.books.size, ∃ side, ∃ order ∈ queuedOrders engine b side, order.id = id ∧
    order.openQty = qty

instance (p : Side → Prop) [DecidablePred p] : Decidable (∃ side, p side) :=
  decidable_of_iff (p .buy ∨ p .sell) ⟨fun h => h.elim (⟨_, ·⟩) (⟨_, ·⟩), fun ⟨side, h⟩ => by
    cases side
    · exact .inl h
    · exact .inr h⟩

instance (p : Side → Prop) [DecidablePred p] : Decidable (∀ side, p side) :=
  decidable_of_iff (p .buy ∧ p .sell) ⟨fun h side => by
    cases side
    · exact h.1
    · exact h.2, fun h => ⟨h .buy, h .sell⟩⟩

instance (engine : Engine) (id : OrderId) (qty : Nat) : Decidable (OnBook engine id qty) :=
  inferInstanceAs (Decidable (∃ b, b < engine.books.size ∧ ∃ side, ∃ order,
    order ∈ queuedOrders engine b side ∧
    order.id = id ∧ order.openQty = qty))

/- A listener that throws out of one callback, counted from 0; there is memory. -/
def throwsAt (n : Nat) : Env := ⟨fun events => decide (events.length = n + 1), true, true⟩

section Queues
variable {engine : Engine} {venue : Venue} {b : Nat}

theorem queuedOrdersEqVenue (sim : Sim engine venue) (inside : b < engine.books.size)
    (side : Side) : queuedOrders engine b side = venue.orders b side := by
  obtain ⟨queues, rep, _, view⟩ := sim
  rw [ordersAt view inside, viewSide, slotsOf, queuedOrders]
  congr 1
  exact List.flatMap_congr (fun i member => levelSlotsEqQueue rep inside (memLevelOrder.mp member))

theorem onBookIff (sim : Sim engine venue) (id : OrderId) (qty : Nat) :
    OnBook engine id qty ↔ venue.Holds id qty := by
  constructor
  · rintro ⟨b, inside, side, order, member, same⟩
    rw [queuedOrdersEqVenue sim inside] at member
    exact ⟨b, side, order, member, same⟩
  · rintro ⟨b, side, order, member, same⟩
    have start := sim
    obtain ⟨queues, rep, _, view⟩ := sim
    have inside : b < engine.books.size := ((orderSlot rep view).mp member).1
    refine ⟨b, inside, side, order, ?_, same⟩
    rwa [queuedOrdersEqVenue start inside]

end Queues

/- The order is on the book: as it was, or under the new id with all that is not reported as
traded. -/
def KeptOnBook (engine : Engine) (request : ReplaceOrder) (slot : Slot) (session : Session) :
    Prop :=
  session.engine.pool.get slot = engine.pool.get slot ∧
      OnBook session.engine request.orderId (engine.pool.get slot).openQty.toNat ∨
    (replacementOpen request (engine.pool.get slot)).toNat - tradedIn session.events = 0 ∨
    OnBook session.engine request.newOrderId
      ((replacementOpen request (engine.pool.get slot)).toNat - tradedIn session.events)

instance (engine : Engine) (request : ReplaceOrder) (slot : Slot) (session : Session) :
    Decidable (KeptOnBook engine request slot session) := inferInstanceAs (Decidable (_ ∨ _))

def metOrders (engine : Engine) (request : ReplaceOrder) (slot : Slot) : List Order :=
  eligible (engine.pool.get slot).side (some request.newPrice)
    (queuedOrders engine (engine.bookOf slot) (engine.pool.get slot).side.opposite)

/- The replace is rejected, or keeps its place, or callback `n` comes too late to matter: after
the last, or when the orders met have taken everything. -/
def ThrowHarmless (engine : Engine) (request : ReplaceOrder) (slot : Slot) (n : Nat) : Prop :=
  ¬ReplaceValid engine request slot ∨
    request.newPrice = (engine.pool.get slot).price ∧
      replacementOpen request (engine.pool.get slot) ≤ (engine.pool.get slot).openQty ∨
    (metOrders engine request slot).length < n ∨
    (replacementOpen request (engine.pool.get slot)).toNat ≤
    quantityOf ((metOrders engine request slot).take n)

section Throwing
variable {engine : Engine} {venue : Venue} {request : ReplaceOrder} {slot : Slot}

theorem openOnBook (sim : Sim engine venue) (found : engine.findOpen request.orderId = some slot) :
    OnBook engine request.orderId (engine.pool.get slot).openQty.toNat := by
  obtain ⟨b, book, place⟩ := located sim found
  obtain ⟨_, member, named⟩ := Venue.findOpenRests place.found
  exact (onBookIff sim _ _).mpr ⟨b, _, _, member, named, rfl⟩

theorem invalidUntouched (env : Env) (found : engine.findOpen request.orderId = some slot)
    (positive : replacementOpen request (engine.pool.get slot) ≠ 0)
    (flawed : ¬ReplaceValid engine request slot) :
    (call env (.replace request) engine).engine = engine := by
  refine callEnds (P := fun t => t.engine = engine) ?_
  simp only [perform, replace, current, wpBind, wpGet, wpPure, wpIte, found, positive]
  have emits := fun event => @emitEnds env event { engine := engine } (fun e => e = engine) rfl
  refine ⟨fun _ => emits _, fun _ =>
    ⟨fun zero => zero.elim, fun _ => ⟨fun _ => emits _, fun unused => ⟨fun _ => emits _,
    fun aligned => ⟨fun _ => emits _, fun inBand => absurd ?_ flawed⟩⟩⟩⟩⟩
  refine ⟨found, positive, fun other => ?_, by simpa using aligned, Int.not_lt.mp inBand⟩
  simpa using fun used => unused ⟨other, used⟩

theorem venueAmends {b : Nat} {side : Side} {old : Order} {book : Book}
    (replacing : Venue.Replacing venue request b side old book)
    (keeps : ¬(request.newPrice ≠ old.price ∨
      old.openQty < (Venue.replacement request old).openQty)) :
    Venue.perform wrappedFill (.replace request) venue =
      ([Venue.replacedMoment request (Venue.replacement request old)
          ((venue.spend request.newOrderId old.filledQty).putSide b side
            (instead old.id (Venue.replacement request old) (venue.orders b side))) none],
        (venue.spend request.newOrderId old.filledQty).putSide b side
          (instead old.id (Venue.replacement request old) (venue.orders b side))) := by
  have left := Nat.ne_of_gt replacing.positive
  have unused : ¬(request.newOrderId ≠ request.orderId ∧ request.newOrderId ∈ venue.spent) :=
    fun used => replacing.unused used.1 used.2
  simp only [Venue.perform, Venue.replace, replacing.configured, Bool.not_true, Bool.false_eq_true,
    if_false, replacing.found,
    left, unused, replacing.aligned, replacing.here, Option.map_some, replacing.inBand,
      Option.getD_some]
  rw [Venue.replaceOrder, if_neg keeps]
  rfl

theorem keptInPlace {b : Nat} {book : Book} {n : Nat} (sim : Sim engine venue)
    (room : engine.pool.size < kInvalidSlot.toNat)
    (replacing : Venue.Replacing venue request b (engine.pool.get slot).side
      (engine.pool.get slot).order book)
    (keeps : ¬(request.newPrice ≠ (engine.pool.get slot).order.price ∨
      (engine.pool.get slot).order.openQty <
      (Venue.replacement request (engine.pool.get slot).order).openQty)) :
    KeptOnBook engine request slot (call (throwsAt n) (.replace request) engine) := by
  obtain ⟨events, after⟩ :=
    @callReacts engine venue (throwsAt n) sim room ⟨rfl, rfl⟩ (.replace request)
  obtain ⟨_, rests, named⟩ := Venue.findOpenRests replacing.found
  rw [venueAmends replacing keeps] at events after
  have one :=
    Venue.reactOne n (Venue.replacedMoment request
      (Venue.replacement request (engine.pool.get slot).order)
    ((venue.spend request.newOrderId (engine.pool.get slot).order.filledQty).putSide b
      (engine.pool.get slot).side
      (instead (engine.pool.get slot).order.id
        (Venue.replacement request (engine.pool.get slot).order)
        (venue.orders b (engine.pool.get slot).side))) none)
  change _ = (Venue.react (fun events => decide (events.length = n + 1)) _).1 at events
  change Sim _ (Venue.react (fun events => decide (events.length = n + 1)) _).2 at after
  simp only [Venue.replacedMoment] at one events after
  rw [one] at events after
  have none : tradedIn (call (throwsAt n) (.replace request) engine).events = 0 := by
    rw [events]
    rfl
  refine .inr (.inr ?_)
  rw [onBookIff after, none, ← replacementEqOpen]
  refine ⟨b, (engine.pool.get slot).side, Venue.replacement request (engine.pool.get slot).order,
    ?_, rfl, rfl⟩
  rw [Venue.ordersPutSide, if_pos ⟨rfl, rfl, Venue.ordersInside rests⟩]
  exact List.mem_map.mpr ⟨_, rests, if_pos rfl⟩

theorem requeueKept {b : Nat} {book : Book} (n : Nat) (sim : Sim engine venue)
    (uncrossed : venue.Uncrossed)
    (room : engine.pool.size < kInvalidSlot.toNat)
    (place : Located engine venue request.orderId slot b book)
    (replacing : Venue.Replacing venue request b (engine.pool.get slot).side
      (engine.pool.get slot).order book)
    (loses : request.newPrice ≠ (engine.pool.get slot).order.price ∨
      (engine.pool.get slot).order.openQty <
      (Venue.replacement request (engine.pool.get slot).order).openQty) :
    KeptOnBook engine request slot (call (throwsAt n) (.replace request) engine) ↔
      (metOrders engine request slot).length < n ∨
        (replacementOpen request (engine.pool.get slot)).toNat ≤ quantityOf
        ((metOrders engine request slot).take n) := by
  obtain ⟨events, after⟩ :=
    @callReacts engine venue (throwsAt n) sim room ⟨rfl, rfl⟩ (.replace request)
  rw [venueRequeues replacing loses] at events after
  have reacts := Venue.requeueReacts (simProper sim) uncrossed replacing n _ rfl
  have met : metOrders engine request slot =
      Venue.met venue request b (engine.pool.get slot).side := by
    rw [metOrders, place.own, queuedOrdersEqVenue sim place.inside, Venue.met]
  simp only [KeptOnBook, onBookIff after, events, met, ← replacementEqOpen]
  constructor
  · intro kept
    exact reacts.1 (kept.imp_left (fun old => ⟨_, old.2⟩))
  · intro enough
    exact .inr (reacts.2 enough)

end Throwing

theorem replaceKeepsOrderIff (actions : List Action) (roomy : Roomy (after actions))
    (request : ReplaceOrder) (slot : Slot)
    (found : (after actions).findOpen request.orderId = some slot)
    (positive : replacementOpen request ((after actions).pool.get slot) ≠ 0) (n : Nat) :
    KeptOnBook (after actions) request slot (call (throwsAt n) (.replace request) (after actions)) ↔
      ThrowHarmless (after actions) request slot n := by
  obtain ⟨venue, sim, uncrossed⟩ := reached Venue.keptUncrossed actions roomy
  by_cases valid : ReplaceValid (after actions) request slot
  · obtain ⟨b, book, place⟩ := located sim found
    have replacing := simReplacing sim (openConfigured actions found sim) valid place
    have moves : (request.newPrice ≠ ((after actions).pool.get slot).order.price ∨
        ((after actions).pool.get slot).order.openQty <
        (Venue.replacement request ((after actions).pool.get slot).order).openQty) ↔
        ¬(request.newPrice = ((after actions).pool.get slot).price ∧
          replacementOpen request ((after actions).pool.get slot) ≤
          ((after actions).pool.get slot).openQty) := by
      rw [replacementEqOpen, UInt32.le_iff_toNat_le, not_and_or, Nat.not_le]
      rfl
    simp only [ThrowHarmless, valid, not_true_eq_false, false_or]
    by_cases loses : request.newPrice ≠ ((after actions).pool.get slot).order.price ∨
        ((after actions).pool.get slot).order.openQty <
        (Venue.replacement request ((after actions).pool.get slot).order).openQty
    · simp only [moves.mp loses, false_or]
      exact requeueKept n sim uncrossed roomy.slots place replacing loses
    · exact iff_of_true (keptInPlace sim roomy.slots replacing loses)
        (.inl (not_not.mp (mt moves.mpr loses)))
  · have same := invalidUntouched (throwsAt n) found positive valid
    refine iff_of_true (.inl ?_) (.inl valid)
    rw [same]
    exact ⟨rfl, openOnBook sim found⟩

/- The listener throws out of the announcement of a replace that moves a lone sell. -/
theorem throwingListenerLosesOrder :
    Roomy (after (calmRun [⟨7, 100000, 1000⟩] [.submit ⟨1, 7, .sell, .limit, .day, 100100, 5⟩])) ∧
    (after (calmRun [⟨7, 100000, 1000⟩] [.submit ⟨1, 7, .sell, .limit, .day, 100100, 5⟩])).findOpen
      1 = some 0 ∧
    replacementOpen ⟨1, 9, 100000, 5⟩
      ((after (calmRun [⟨7, 100000, 1000⟩]
        [.submit ⟨1, 7, .sell, .limit, .day, 100100, 5⟩])).pool.get 0) = 5 ∧
    ¬KeptOnBook (after (calmRun [⟨7, 100000, 1000⟩]
      [.submit ⟨1, 7, .sell, .limit, .day, 100100, 5⟩])) ⟨1, 9, 100000, 5⟩ 0
      (call (throwsAt 0) (.replace ⟨1, 9, 100000, 5⟩)
        (after (calmRun [⟨7, 100000, 1000⟩] [.submit ⟨1, 7, .sell, .limit, .day, 100100, 5⟩]))) :=
  ⟨roomyOf (by decide +kernel)
    (by decide +kernel), by decide +kernel, by decide +kernel, by decide +kernel⟩

theorem smallerReplaceKeepsOrder :
    KeptOnBook (after (calmRun [⟨7, 100000, 1000⟩]
      [.submit ⟨1, 7, .sell, .limit, .day, 100100, 5⟩])) ⟨1, 9, 100100, 3⟩ 0
        (call (throwsAt 0) (.replace ⟨1, 9, 100100, 3⟩)
          (after (calmRun [⟨7, 100000, 1000⟩] [.submit ⟨1, 7, .sell, .limit, .day, 100100, 5⟩]))) ↔
      ThrowHarmless (after (calmRun [⟨7, 100000, 1000⟩]
        [.submit ⟨1, 7, .sell, .limit, .day, 100100, 5⟩])) ⟨1, 9, 100100, 3⟩ 0 0 :=
  replaceKeepsOrderIff _ (roomyOf (by decide +kernel) (by decide +kernel)) _ _ (by decide +kernel)
    (by decide +kernel) 0

end Engine
end Xmatch
