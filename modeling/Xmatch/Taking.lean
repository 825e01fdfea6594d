import Xmatch.Isolation
import Xmatch.Lib.Drawing
import Xmatch.Symmetry
import Xmatch.Throwing

/-! What an aggressor takes is drawn from the front of the orders it accepts. So an order can be
split, the quantity at the top of a book is firm, and a call that is cut short has taken what
its earlier trades took. -/
namespace Xmatch

theorem fillLessening : Drawing.Lessening Order.openQty Order.fill :=
  ⟨fun _ _ => rfl, fun x m n => by simp only [Order.fill, Nat.sub_sub, Nat.add_assoc]⟩

abbrev drawOrders (n : Nat) (orders : List Order) : List Order :=
  Drawing.draw Order.openQty Order.fill n orders
abbrev drawnOrders (n : Nat) (orders : List Order) : List (Order × Nat) :=
  Drawing.drawn Order.openQty n orders

def Event.taken : Event → Option (OrderId × Int × Nat)
  | .trade _ _ price quantity resting _ _ => some (resting, price, quantity)
  | _ => none

def takenIn (events : List Event) : List (OrderId × Int × Nat) := events.filterMap Event.taken

def refused (side : Side) (limit : Option Int) (orders : List Order) : List Order :=
  orders.filter (fun o => !side.accepts limit o.price)

namespace Venue

section Sweeps
variable {b : Nat} {instrumentId : InstrumentId} {side : Side} {limit : Option Int}
  {orders : List Order} {maker : Order}

theorem sortedSplit (sorted : Sorted side.opposite orders) :
    eligible side limit orders ++ refused side limit orders = orders := by
  induction orders with
  | nil => rfl
  | cons maker rest ih =>
    cases accepted : side.accepts limit maker.price with
    | true =>
      have later : refused side limit (maker :: rest) = refused side limit rest :=
        List.filter_cons_of_neg (by simp [accepted])
      rw [eligibleMore accepted, later, List.cons_append, ih sorted.tail]
    | false =>
      rw [sortedEligible sorted accepted, List.nil_append]
      refine List.filter_eq_self.mpr (fun o member => ?_)
      have none := sortedRefused sorted (fun first isFirst => by
        cases Option.some.inj isFirst
        exact accepted) o member
      rw [none]
      rfl

theorem takenTrade (side : Side) (maker : Order) (venue : Venue) (taker : Order)
    (events : List Event) :
    takenIn ((tradeMoment instrumentId side maker venue taker).event :: events) =
      (maker.id, maker.price, min taker.openQty maker.openQty) :: takenIn events := rfl

theorem sweepDraws : ∀ (orders : List Order) (venue : Venue) (taker : Order),
    Sorted side.opposite orders →
    (sweep b instrumentId side limit orders venue taker).2.opposite =
        drawOrders taker.openQty (eligible side limit orders) ++ refused side limit orders ∧
      takenIn ((sweep b instrumentId side limit orders venue taker).1.map (·.event)) =
        (drawnOrders taker.openQty (eligible side limit orders)).map (fun gift =>
          (gift.1.id, gift.1.price, gift.2)) ∧
      (sweep b instrumentId side limit orders venue taker).2.taker.openQty =
        taker.openQty - quantityOf (eligible side limit orders) := by
  intro orders
  induction orders with
  | nil => exact fun venue taker _ => ⟨rfl, rfl, rfl⟩
  | cons maker rest ih =>
    intro venue taker sorted
    by_cases active : 0 < taker.openQty
    · cases accepted : side.accepts limit maker.price with
      | false =>
        have split : eligible side limit (maker :: rest) ++ refused side limit (maker :: rest) =
            maker :: rest := sortedSplit sorted
        rw [sweepRefused accepted]
        rw [sortedEligible sorted accepted] at split ⊢
        exact ⟨split.symm, rfl, (Nat.sub_zero _).symm⟩
      | true =>
        have later : refused side limit (maker :: rest) = refused side limit rest :=
          List.filter_cons_of_neg (by simp [accepted])
        have some : ¬taker.openQty = 0 := by omega
        rw [eligibleMore accepted, later]
        simp only [sweep, active, accepted, and_self, if_true]
        by_cases closes : maker.openQty ≤ taker.openQty
        · obtain ⟨left, taken, open'⟩ := ih (tradeStep b side maker rest venue taker).venue
            (tradeStep b side maker rest venue taker).taker sorted.tail
          have qty : min taker.openQty maker.openQty = maker.openQty := Nat.min_eq_right closes
          have next : (tradeStep b side maker rest venue taker).taker.openQty =
              taker.openQty - maker.openQty := by
            simp only [tradeStep, Order.fill, qty]
          rw [next] at left taken open'
          simp only [closes, if_true, drawOrders, drawnOrders, Drawing.draw, Drawing.drawn, some,
            if_false]
          refine ⟨left, ?_, ?_⟩
          · rw [List.map_cons, takenTrade, taken, qty, List.map_cons]
          · rw [open', quantityOf, quantityOf, List.map_cons, List.sum_cons, Nat.sub_sub]
        · have qty : min taker.openQty maker.openQty = taker.openQty := Nat.min_eq_left (by omega)
          simp only [closes, if_false, drawOrders, drawnOrders, Drawing.draw, Drawing.drawn, some]
          refine ⟨?_, ?_, ?_⟩
          · simp only [tradeStep, closes, if_false, qty]
            have split : eligible side limit rest ++ refused side limit rest = rest :=
              sortedSplit sorted.tail
            rw [List.cons_append, split]
          · rw [List.map_singleton, takenTrade, qty]
            rfl
          · simp only [tradeStep, Order.fill, qty, quantityOf, List.map_cons, List.sum_cons]
            omega
    · have none : taker.openQty = 0 := by omega
      rw [sweepIdle none]
      simp only [none, drawOrders, drawnOrders, Drawing.drawNothing, Drawing.drawnNothing,
        sortedSplit sorted]
      exact ⟨trivial, rfl, (Nat.zero_sub _).symm⟩

/- From one venue to the other, `n` have been drawn from the orders that the limit accepts. -/
structure Drew (b : Nat) (side : Side) (limit : Option Int) (n : Nat) (before after : Venue) :
    Prop where
  here : after.orders b side.opposite =
    drawOrders n (eligible side limit (before.orders b side.opposite)) ++
    refused side limit (before.orders b side.opposite)
  others : ∀ c s, ¬(c = b ∧ s = side.opposite) → after.orders c s = before.orders c s

theorem drawKey {n : Nat} {order : Order} (member : order ∈ drawOrders n orders) :
    ∃ o ∈ orders, o.key = order.key := by
  induction orders generalizing n with
  | nil => contradiction
  | cons first rest ih =>
    unfold drawOrders Drawing.draw at member
    split at member
    · exact ⟨order, member, rfl⟩
    split at member
    · obtain ⟨o, inRest, same⟩ := ih member
      exact ⟨o, List.mem_cons_of_mem _ inRest, same⟩
    · rcases List.mem_cons.mp member with rfl | later
      · exact ⟨first, List.mem_cons_self, rfl⟩
      · exact ⟨order, List.mem_cons_of_mem _ later, rfl⟩

theorem drawPrice {n : Nat} {order : Order} (member : order ∈ drawOrders n orders) :
    ∃ o ∈ orders, o.price = order.price := by
  obtain ⟨o, among, same⟩ := drawKey member
  exact ⟨o, among, congrArg Prod.snd same⟩

theorem drawAccepted {n : Nat} {order : Order}
    (member : order ∈ drawOrders n (eligible side limit orders)) :
    side.accepts limit order.price = true := by
  obtain ⟨o, inEligible, same⟩ := drawPrice member
  rw [← same]
  exact (List.mem_filter.mp inEligible).2

theorem eligibleDrawn (n : Nat) (orders : List Order) :
    eligible side limit (drawOrders n (eligible side limit orders) ++ refused side limit orders) =
      drawOrders n (eligible side limit orders) ∧
      refused side limit (drawOrders n (eligible side limit orders) ++ refused side limit orders) =
        refused side limit orders := by
  refine ⟨?_, ?_⟩
  · rw [eligible, List.filter_append, List.filter_eq_self.mpr (fun o member => drawAccepted member),
      List.filter_eq_nil_iff.mpr (fun o member => ?_), List.append_nil]
    simpa using (List.mem_filter.mp member).2
  · rw [refused, List.filter_append, List.filter_eq_nil_iff.mpr (fun o member => ?_),
      List.nil_append]
    · exact List.filter_eq_self.mpr (fun o member => (List.mem_filter.mp member).2)
    · rw [drawAccepted member]
      decide

section Taking
variable {before middle after : Venue} {m n : Nat}

theorem takenRefl (sorted : Sorted side.opposite (before.orders b side.opposite)) :
    Drew b side limit 0 before before :=
  ⟨by rw [drawOrders, Drawing.drawNothing, sortedSplit sorted], fun _ _ _ => rfl⟩

theorem takenAdd (first : Drew b side limit m before middle)
    (second : Drew b side limit n middle after) : Drew b side limit (m + n) before after := by
  refine ⟨?_, fun c s elsewhere => (second.others c s elsewhere).trans (first.others c s elsewhere)⟩
  rw [second.here, first.here, (eligibleDrawn m _).1, (eligibleDrawn m _).2, drawOrders, drawOrders,
    drawOrders, Drawing.drawAdd fillLessening]

theorem takenSame (one : Drew b side limit n before middle) (two : Drew b side limit n before after)
    (c : Nat) (s : Side) : middle.orders c s = after.orders c s := by
  by_cases here : c = b ∧ s = side.opposite
  · rw [here.1, here.2, one.here, two.here]
  · rw [one.others c s here, two.others c s here]

end Taking

theorem takenAppend (earlier later : List Event) :
    takenIn (earlier ++ later) = takenIn earlier ++ takenIn later := List.filterMap_append

structure TakenBy (order : NewOrder) (b : Nat) (before : Venue) (result : List Moment × Venue) :
    Prop where
  taken : Drew b order.side (limitOf order) order.quantity.toNat before result.2
  events : takenIn (result.1.map (·.event)) =
    (drawnOrders order.quantity.toNat (eligible order.side (limitOf order)
      (before.orders b order.side.opposite))).map
      (fun gift => (gift.1.id, gift.1.price, gift.2))
  frames : result.2.books.map Book.frame = before.books.map Book.frame
  spent : result.2.spent = order.orderId :: before.spent
  configured : result.2.configured = before.configured

theorem workTakes {order : NewOrder} {venue : Venue} (proper : venue.Proper) :
    TakenBy order b venue ((work b order (venue.spend order.orderId 0)).1,
      (work b order (venue.spend order.orderId 0)).2.venue) := by
  obtain ⟨sweeping, _⟩ := @sweepSweeping b order.instrumentId order.side (limitOf order)
    (venue.spend order.orderId 0) (takerOf order)
  have sorted : Sorted order.side.opposite
      ((venue.spend order.orderId 0).orders b order.side.opposite) := proper.sorted b _
  obtain ⟨left, taken, _⟩ := @sweepDraws b order.instrumentId order.side (limitOf order) _
    (venue.spend order.orderId 0) (takerOf order) sorted
  have frames := @sweepFrames b order.side order.instrumentId (limitOf order)
      (venue.spend order.orderId 0) (takerOf order)
    ((venue.spend order.orderId 0).orders b order.side.opposite)
  exact ⟨⟨sweeping.here.trans left, sweeping.others⟩, taken, frames, sweeping.spent,
    sweeping.configured⟩

theorem immediateTakes {order : NewOrder} {venue : Venue} {book : Book} (proper : venue.Proper)
    (fresh : Fresh venue order b book) (valid : invalid book order = none)
    (ioc : order.tif = .ioc) :
    TakenBy order b venue (perform wrappedFill (.submit order) venue) := by
  have notFok : ¬(order.tif = .fok ∧ (!wrappedFill order.side (limitOf order) order.quantity.toNat
      ((venue.spend order.orderId 0).orders b order.side.opposite)) = true) := by
    rw [ioc]
    exact fun impossible => by simp at impossible
  have executed : execute wrappedFill b order (venue.spend order.orderId 0) =
      dispose b order (work b order (venue.spend order.orderId 0)) := if_neg notFok
  have drops := @disposeDrops b order (work b order (venue.spend order.orderId 0))
      (by rw [ioc]; decide)
  obtain ⟨taken, events, frames, spent, configured⟩ := @workTakes b order venue proper
  rw [submitValid fresh valid, executed, drops]
  refine ⟨taken, ?_, frames, spent, configured⟩
  simp only [List.map_cons, List.map_append, takenIn, List.filterMap_cons, List.filterMap_append]
  have nothing : ((if 0 < (work b order (venue.spend order.orderId 0)).2.taker.openQty then
      [{ event := .canceled order.orderId (work b order
        (venue.spend order.orderId 0)).2.taker.openQty (remainderReason order),
         venue := (work b order (venue.spend order.orderId 0)).2.venue, working := none }]
      else ([] : List Moment)).map
           (·.event)).filterMap Event.taken = [] := by
    split <;> rfl
  rw [nothing, List.append_nil]
  exact events

theorem freshFrames {other : NewOrder} {before after : Venue} {book : Book}
    (configured : after.configured = before.configured)
    (frames : after.books.map Book.frame = before.books.map Book.frame)
    (fresh : Fresh before other b book) (unused : other.orderId ∉ after.spent) :
    ∃ book', Fresh after other b book' ∧ invalid book' other = invalid book other := by
  have here : (after.books.map Book.frame)[b]? = some book.frame := by
    rw [frames, List.getElem?_map, fresh.here]
    rfl
  rw [List.getElem?_map] at here
  obtain ⟨book', there, frame⟩ := Option.map_eq_some_iff.mp here
  refine ⟨book', ⟨configured.trans fresh.configured, ?_, there, unused⟩, invalidFrame frame other⟩
  rw [frameIndex, frames, ← frameIndex]
  exact fresh.index

theorem freshAfter {order other : NewOrder} {before : Venue} {result : List Moment × Venue}
    {book : Book} (by' : TakenBy order b before result) (fresh : Fresh before other b book)
    (apart : other.orderId ≠ order.orderId) :
    ∃ book', Fresh result.2 other b book' ∧ invalid book' other = invalid book other := by
  refine freshFrames by'.configured by'.frames fresh ?_
  rw [by'.spent, List.mem_cons, not_or]
  exact ⟨apart, fresh.unused⟩

end Sweeps
end Venue

def costIn (events : List Event) : Int :=
  ((takenIn events).map (fun taken => taken.2.1 * (taken.2.2 : Int))).sum

theorem costAppend (earlier later : List Event) :
    costIn (earlier ++ later) = costIn earlier + costIn later := by
  rw [costIn, Venue.takenAppend, List.map_append, List.sum_append]
  rfl

theorem tradedTaken (events : List Event) :
    tradedIn events = ((takenIn events).map (fun taken => taken.2.2)).sum := by
  induction events with
  | nil => rfl
  | cons event rest ih =>
    cases event <;> simp only [tradedIn, takenIn, List.map_cons, List.sum_cons, Event.tradedQty,
      Event.taken, List.filterMap_cons,
      Nat.zero_add] at ih ⊢ <;> omega

def NewOrder.part (order : NewOrder) (part : OrderId × Quantity) : NewOrder :=
  { order with orderId := part.1, quantity := part.2 }

namespace Engine
open OrderBook Venue

def partsOf (order : NewOrder) (parts : List (OrderId × Quantity)) : List Request :=
  parts.map (fun part => .submit (order.part part))

def eventsOf : List Request → Engine → List Event
  | [], _ => []
  | request :: rest, engine =>
    (call .calm request engine).events ++ eventsOf rest (call .calm request engine).engine

def wholeOf (parts : List (OrderId × Quantity)) : Nat := (parts.map (fun part => part.2.toNat)).sum

section Splitting
variable {engine : Engine} {venue : Venue} {order : NewOrder} {b : Nat}

theorem partsTake (ioc : order.tif = .ioc) (parts : List (OrderId × Quantity)) :
    ∀ (engine : Engine) (venue : Venue), Sim engine venue →
    (∀ part ∈ parts, ∃ book, Fresh venue (order.part part) b book ∧
      Venue.invalid book (order.part part) = none) →
    (parts.map Prod.fst).Nodup → Roomy (session (partsOf order parts) engine) →
    (∃ venue', Sim (session (partsOf order parts) engine) venue' ∧
      Drew b order.side (Venue.limitOf order) (wholeOf parts) venue venue') ∧
      costIn (eventsOf (partsOf order parts) engine) = Drawing.worth Order.price
        (drawnOrders (wholeOf parts)
          (eligible order.side (Venue.limitOf order) (venue.orders b order.side.opposite))) ∧
      tradedIn (eventsOf (partsOf order parts) engine) =
        min (wholeOf parts) (quantityOf
          (eligible order.side (Venue.limitOf order) (venue.orders b order.side.opposite))) := by
  induction parts with
  | nil =>
    intro engine venue sim _ _ _
    refine ⟨⟨venue, sim, takenRefl ((simProper sim).sorted b _)⟩, ?_, (Nat.zero_min _).symm⟩
    simp only [wholeOf, List.map_nil, List.sum_nil, drawnOrders, Drawing.drawnNothing]
    rfl
  | cons part rest ih =>
    intro engine venue sim ready distinct roomy
    have room := (roomyBefore (callsGrown (partsOf order (part :: rest)) engine) roomy).slots
    obtain ⟨book, fresh, valid⟩ := ready part List.mem_cons_self
    obtain ⟨apart, distinct'⟩ := List.nodup_cons.mp distinct
    have takes := immediateTakes (simProper sim) fresh valid ioc
    obtain ⟨_, sim'⟩ := calmCall sim room (.submit (order.part part))
    have events := calmEvents sim room (.submit (order.part part))
    have ready' : ∀ other ∈ rest, ∃ book',
        Fresh (Venue.perform wrappedFill (.submit (order.part part)) venue).2
        (order.part other) b book' ∧
        Venue.invalid book' (order.part other) = none := by
      intro other member
      obtain ⟨book, fresh, valid⟩ := ready other (List.mem_cons_of_mem _ member)
      obtain ⟨book', fresh', same⟩ :=
        freshAfter takes fresh (fun same => apart (List.mem_map.mpr ⟨other, member, same⟩))
      exact ⟨book', fresh', same.trans valid⟩
    obtain ⟨⟨venue', simLast, taken⟩, cost, traded⟩ := ih _ _ sim' ready' distinct' roomy
    have first : Drew b order.side (Venue.limitOf order) part.2.toNat venue
        (Venue.perform wrappedFill (.submit (order.part part)) venue).2 := takes.taken
    have drawnEvents : takenIn (call .calm (.submit (order.part part)) engine).events =
        (drawnOrders part.2.toNat (eligible order.side (Venue.limitOf order)
          (venue.orders b order.side.opposite))).map
          (fun gift => (gift.1.id, gift.1.price, gift.2)) := by
      rw [events]
      exact takes.events
    have whole : wholeOf (part :: rest) = part.2.toNat + wholeOf rest := List.sum_cons
    rw [first.here, (eligibleDrawn part.2.toNat _).1] at cost traded
    refine ⟨⟨venue', simLast, by rw [whole]; exact takenAdd first taken⟩, ?_, ?_⟩
    · have own : costIn (call .calm (.submit (order.part part)) engine).events =
          Drawing.worth Order.price
          (drawnOrders part.2.toNat
            (eligible order.side (Venue.limitOf order) (venue.orders b order.side.opposite))) := by
        rw [costIn, drawnEvents, List.map_map]
        rfl
      rw [partsOf, List.map_cons, eventsOf, costAppend, own, whole, drawnOrders,
        @Drawing.worthAdd _ Order.openQty Order.fill Order.price (fun _ _ => rfl) fillLessening]
      exact congrArg _ cost
    · have own : tradedIn (call .calm (.submit (order.part part)) engine).events =
          min part.2.toNat (quantityOf
            (eligible order.side (Venue.limitOf order) (venue.orders b order.side.opposite))) := by
        rw [tradedTaken, drawnEvents, List.map_map]
        exact Drawing.drawnTotal _ _
      have left : quantityOf
          (drawOrders part.2.toNat
            (eligible order.side (Venue.limitOf order) (venue.orders b order.side.opposite))) =
          quantityOf (eligible order.side (Venue.limitOf order)
            (venue.orders b order.side.opposite)) - part.2.toNat :=
        Drawing.drawTotal fillLessening _ _
      rw [left] at traded
      rw [partsOf, List.map_cons, eventsOf, tradedInAppend, own, whole]
      have later : tradedIn (eventsOf (rest.map (fun part => .submit (order.part part)))
          (call .calm (.submit (order.part part)) engine).engine) = _ := traded
      rw [later]
      omega

end Splitting

structure SameTaking (engine : Engine) (one two : List Request) : Prop where
  queues : ∀ c < engine.books.size, ∀ side, queuedOrders (session one engine) c side =
    queuedOrders (session two engine) c side
  traded : tradedIn (eventsOf one engine) = tradedIn (eventsOf two engine)
  cost : costIn (eventsOf one engine) = costIn (eventsOf two engine)

theorem splittingIsFree (actions : List Action) (order : NewOrder) (b : Nat)
    (ioc : order.tif = .ioc) (parts parts' : List (OrderId × Quantity))
    (valid : ∀ part ∈ parts ++ parts', ValidSubmit (after actions) (order.part part) b)
    (distinct : (parts.map Prod.fst).Nodup) (distinct' : (parts'.map Prod.fst).Nodup)
    (same : wholeOf parts = wholeOf parts')
    (roomy : Roomy (session (partsOf order parts) (after actions)))
    (roomy' : Roomy (session (partsOf order parts') (after actions))) :
    SameTaking (after actions) (partsOf order parts) (partsOf order parts') := by
  obtain ⟨venue, sim, _⟩ := reached keptTrivial actions (roomyBefore (callsGrown _ _) roomy)
  obtain ⟨⟨one, simOne, first⟩, cost, traded⟩ := @partsTake order b ioc parts _ venue sim
    (fun part member => validFresh sim (valid part (List.mem_append_left _ member))) distinct roomy
  obtain ⟨⟨two, simTwo, second⟩, cost', traded'⟩ := @partsTake order b ioc parts' _ venue sim
    (fun part member => validFresh sim (valid part (List.mem_append_right _ member)))
    distinct' roomy'
  rw [same] at first cost traded
  refine ⟨fun c inside side => ?_, traded.trans traded'.symm, cost.trans cost'.symm⟩
  rw [queuedOrdersEqVenue simOne (by rw [(callsGrown _ _).books]; exact inside),
    queuedOrdersEqVenue simTwo (by rw [(callsGrown _ _).books]; exact inside),
    takenSame first second]

theorem sevenInTwoParts :
    SameTaking (after (calmRun [⟨7, 100000, 1000⟩] [.submit ⟨1, 7, .sell, .limit, .day, 100000, 5⟩,
      .submit ⟨2, 7, .sell, .limit, .day, 100100, 4⟩]))
      (partsOf ⟨0, 7, .buy, .limit, .ioc, 100100, 0⟩ [(3, 7)])
        (partsOf ⟨0, 7, .buy, .limit, .ioc, 100100, 0⟩ [(3, 4), (4, 3)]) :=
  splittingIsFree _ _ 0 rfl _ _ (fun part member => by
    simp only [List.cons_append, List.nil_append, List.mem_cons, List.not_mem_nil,
      or_false] at member
    rcases member with rfl | rfl | rfl <;>
      exact ⟨by decide +kernel, by decide +kernel, by decide +kernel, by decide +kernel⟩)
    (by decide) (by decide) (by decide) (roomyOf (by decide +kernel) (by decide +kernel))
      (roomyOf (by decide +kernel) (by decide +kernel))

end Engine
end Xmatch
