import Xmatch.History
import Xmatch.Lib.StableSort
import Xmatch.Throwing

/-! An observer who sees the requests and the callbacks, and nothing of the engine, knows every
queue: the open orders in order of arrival, sorted by price. -/
namespace Xmatch

structure Rested where
  instrumentId : InstrumentId
  side : Side
  order : Order
  deriving DecidableEq, Repr

/- The open orders in the order in which they came to rest, and the one being worked. -/
structure Observer where
  rested : List Rested := []
  working : Option Rested := none

def Rested.fill (rested : Rested) (qty : Nat) : Rested :=
  { rested with order := rested.order.fill qty }

def revise (g : Order → Option Order) (rested : List Rested) : List Rested :=
  rested.filterMap (fun r => (g r.order).map (fun order => { r with order }))

def hit (id : OrderId) (qty : Nat) (order : Order) : Option Order :=
  if order.id = id then if order.openQty ≤ qty then none else some (order.fill qty) else some order

def drop (id : OrderId) (order : Order) : Option Order := if order.id = id then none else some order

def swap (id : OrderId) (fresh : Order) (order : Order) : Option Order :=
  if order.id = id then some fresh else some order

namespace Observer

def replaced (observer : Observer) (old new : OrderId) (price : Int) (quantity : Nat) : Observer :=
  match observer.rested.find? (fun r => r.order.id = old) with
  | none => observer
  | some r =>
    let fresh : Order := { id := new, price, openQty := quantity, filledQty := r.order.filledQty }
    if price = r.order.price ∧
      quantity ≤ r.order.openQty then { rested := revise (swap old fresh) observer.rested }
    else { rested := revise (drop old) observer.rested, working := some { r with order := fresh } }

def opened (observer : Observer) : Request → Observer
  | .submit order =>
    { observer with working := some ⟨order.instrumentId, order.side, Venue.takerOf order⟩ }
  | _ => observer

def see (observer : Observer) (entry : Entry) : Observer :=
  match entry.2 with
  | .accepted _ => observer.opened entry.1
  | .rejected _ _ => observer
  | .trade _ _ _ quantity resting _ _ =>
    { rested := revise (hit resting quantity) observer.rested,
      working := observer.working.map (·.fill quantity) }
  | .canceled id _ _ => { rested := revise (drop id) observer.rested }
  | .replaced old new price quantity => observer.replaced old new price quantity

def settled (observer : Observer) : List Rested :=
  match observer.working with
  | some r => if 0 < r.order.openQty then observer.rested ++ [r] else observer.rested
  | none => observer.rested

end Observer

def observe (rested : List Rested) (entries : List Entry) : List Rested :=
  (entries.foldl Observer.see { rested }).settled

def rebuilt (journal : List (List Entry)) : List Rested := journal.foldl observe []

def ahead (side : Side) (a b : Order) : Prop := side.better a.price b.price

instance (side : Side) : DecidableRel (ahead side) :=
  fun a b => inferInstanceAs (Decidable (side.better a.price b.price))

def arrivals (rested : List Rested) (id : InstrumentId) (side : Side) : List Order :=
  (rested.filter (fun r => r.instrumentId = id ∧ r.side = side)).map (·.order)

def queueOf (rested : List Rested) (id : InstrumentId) (side : Side) : List Order :=
  StableSort.arranged (ahead side) (arrivals rested id side)

section Queues
variable {rested : List Rested} {id : InstrumentId} {id' : OrderId} {side : Side}
  {g : Order → Option Order} {order : Order}

theorem aheadRanking (side : Side) : StableSort.Ranking (ahead side) := by
  refine ⟨fun a b => ?_, fun a b c => ?_⟩
  · cases side <;> simp only [ahead, Side.better] <;> omega
  · cases side <;> simp only [ahead, Side.better] <;> omega

theorem enqueuePlaces (side : Side) (order : Order) (orders : List Order) :
    enqueue side order orders = StableSort.place (ahead side) order orders := by
  induction orders with
  | nil => rfl
  | cons first rest ih => rw [enqueue, StableSort.place, ih]; rfl

theorem queueRested (id : InstrumentId) (side : Side) (order : Order) (rested : List Rested) :
    queueOf (rested ++ [⟨id, side, order⟩]) id side =
      enqueue side order (queueOf rested id side) := by
  have last : arrivals (rested ++ [⟨id, side, order⟩]) id side =
      arrivals rested id side ++ [order] := by simp [arrivals]
  rw [queueOf, last, StableSort.arrangedNext, enqueuePlaces]
  rfl

theorem queueElsewhere {r : Rested} (apart : ¬(r.instrumentId = id ∧ r.side = side)) :
    queueOf (rested ++ [r]) id side = queueOf rested id side := by
  simp [queueOf, arrivals, apart]

theorem arrivalsCons (r : Rested) (rest : List Rested) :
    arrivals (r :: rest) id side = if r.instrumentId = id ∧ r.side = side then r.order ::
      arrivals rest id side else arrivals rest id side := by
  simp only [arrivals, List.filter_cons, decide_eq_true_eq]
  split <;> rfl

theorem arrivalsRevised (g : Order → Option Order) (rested : List Rested) (id : InstrumentId)
    (side : Side) : arrivals (revise g rested) id side = (arrivals rested id side).filterMap g := by
  induction rested with
  | nil => rfl
  | cons r rest ih =>
    rw [arrivalsCons]
    cases revised : g r.order with
    | none =>
      have dropped : revise g (r :: rest) = revise g rest :=
        List.filterMap_cons_none (by rw [revised]; rfl)
      rw [dropped, ih]
      split
      · rw [List.filterMap_cons_none revised]
      · rfl
    | some order =>
      have kept : revise g (r :: rest) = { r with order } :: revise g rest :=
        List.filterMap_cons_some (by rw [revised]; rfl)
      rw [kept, arrivalsCons, ih]
      split
      · rw [List.filterMap_cons_some revised]
      · rfl

theorem queueRevised (prices : ∀ o ∈ arrivals rested id side, ∀ o' ∈ g o, o'.price = o.price) :
    queueOf (revise g rested) id side = (queueOf rested id side).filterMap g := by
  rw [queueOf, arrivalsRevised, StableSort.arrangedRevised (aheadRanking side)]
  · rfl
  · intro x inX y inY x' revisedX y' revisedY
    rw [ahead, ahead, prices x inX x' revisedX, prices y inY y' revisedY]

theorem memQueueOf : order ∈ queueOf rested id side ↔ ⟨id, side, order⟩ ∈ rested := by
  rw [queueOf, (StableSort.arrangedPerm _).mem_iff, arrivals, List.mem_map]
  constructor
  · rintro ⟨r, member, rfl⟩
    obtain ⟨listed, here⟩ := List.mem_filter.mp member
    obtain ⟨rfl, rfl⟩ := of_decide_eq_true here
    exact listed
  · exact fun listed => ⟨_, List.mem_filter.mpr ⟨listed, by simp⟩, rfl⟩

theorem memRevise {r' : Rested} (member : r' ∈ revise g rested) :
    ∃ r ∈ rested, r'.instrumentId = r.instrumentId ∧ r'.side = r.side ∧
      g r.order = some r'.order := by
  obtain ⟨r, listed, revised⟩ := List.mem_filterMap.mp member
  obtain ⟨order, changed, rfl⟩ := Option.map_eq_some_iff.mp revised
  exact ⟨r, listed, rfl, rfl, changed⟩

theorem dropSame (same : order.id = id') : drop id' order = none := if_pos same

theorem dropOther (other : order.id ≠ id') : drop id' order = some order := if_neg other

theorem hitOther (other : order.id ≠ id') (qty : Nat) :
    hit id' qty order = some order := if_neg other

theorem swapOther (other : order.id ≠ id') (fresh : Order) :
    swap id' fresh order = some order := if_neg other

theorem withoutDrops (id : OrderId) (orders : List Order) :
    without id orders = orders.filterMap (drop id) := by
  induction orders with
  | nil => rfl
  | cons first rest ih =>
    by_cases same : first.id = id
    · rw [List.filterMap_cons_none (dropSame same), ← ih]
      exact List.filter_cons_of_neg (by simpa using same)
    · rw [List.filterMap_cons_some (dropOther same), ← ih]
      exact List.filter_cons_of_pos (by simpa using same)

theorem insteadSwaps (id : OrderId) (fresh : Order) (orders : List Order) :
    instead id fresh orders = orders.filterMap (swap id fresh) := by
  induction orders with
  | nil => rfl
  | cons first rest ih =>
    have swapped : swap id fresh first = some (if first.id = id then fresh else first) := by
      unfold swap
      split <;> rfl
    rw [List.filterMap_cons_some swapped, ← ih]
    rfl

end Queues

namespace Venue

def indexOf (venue : Venue) (id : InstrumentId) : Option Nat :=
  venue.books.findIdx? (fun book => book.instrumentId = id)

structure Distinct (venue : Venue) : Prop where
  nodup : ∀ b side, ((venue.orders b side).map (·.id)).Nodup
  once : ∀ b c side s, ∀ o ∈ venue.orders b side, ∀ o' ∈ venue.orders c s, o.id = o'.id →
    b = c ∧ side = s

structure Observed (rested : List Rested) (venue : Venue) : Prop where
  queues : ∀ id b side, venue.indexOf id = some b → venue.orders b side = queueOf rested id side
  homes : ∀ r ∈ rested, (∃ b, venue.indexOf r.instrumentId = some b) ∧ r.order.id ∈ venue.spent
  indexed : ∀ b side, ∀ o ∈ venue.orders b side, ∃ id, venue.indexOf id = some b

section Observing
variable {rested rested' : List Rested} {venue base : Venue} {id : InstrumentId} {b c : Nat}
  {side s : Side} {xs : List Order} {order : Order}

theorem indexFrames {left right : Venue}
    (frames : left.books.map Book.frame = right.books.map Book.frame) (id : InstrumentId) :
    left.indexOf id = right.indexOf id := by
  rw [indexOf, indexOf, frameIndex, frameIndex, frames]

theorem indexPut (venue : Venue) (b : Nat) (side : Side) (xs : List Order) (id : InstrumentId) :
    (venue.putSide b side xs).indexOf id = venue.indexOf id :=
  indexFrames (framesPut venue b side xs) id

theorem indexName (found : venue.indexOf id = some b) :
    ((venue.books[b]?).map (·.instrumentId)).getD 0 = id := by
  obtain ⟨inside, named, -⟩ := List.findIdx?_eq_some_iff_getElem.mp found
  rw [List.getElem?_eq_getElem inside]
  exact of_decide_eq_true named

theorem indexInside (found : venue.indexOf id = some b) : b < venue.books.length :=
  (List.findIdx?_eq_some_iff_getElem.mp found).1

theorem observedPut (observed : Observed rested venue) (found : venue.indexOf id = some b)
    (same : xs = queueOf rested' id side)
    (others : ∀ id' c s, venue.indexOf id' = some c → ¬(c = b ∧ s = side) →
      venue.orders c s = queueOf rested' id' s)
    (homes : ∀ r ∈ rested', (∃ b, venue.indexOf r.instrumentId = some b) ∧
      r.order.id ∈ venue.spent) :
    Observed rested' (venue.putSide b side xs) where
  queues id' c s found' := by
    rw [indexPut] at found'
    rw [ordersPutSide]
    by_cases here : c = b ∧ s = side
    · obtain ⟨rfl, rfl⟩ := here
      rw [if_pos ⟨rfl, rfl, indexInside found⟩, same, ← indexName found, ← indexName found']
    · rw [if_neg (fun there => here ⟨there.1, there.2.1⟩)]
      exact others id' c s found' here
  homes r member := by
    obtain ⟨⟨c, found'⟩, spent⟩ := homes r member
    exact ⟨⟨c, by rw [indexPut]; exact found'⟩, spent⟩
  indexed c s o member := by
    rw [ordersPutSide] at member
    by_cases here : c = b ∧ s = side ∧ b < venue.books.length
    · exact ⟨id, by rw [indexPut, here.1]; exact found⟩
    · rw [if_neg here] at member
      obtain ⟨id', found'⟩ := observed.indexed c s o member
      exact ⟨id', by rw [indexPut]; exact found'⟩

theorem observedRevised {g : Order → Option Order} {target : OrderId}
    (observed : Observed rested venue)
    (found : venue.indexOf id = some b)
    (elsewhere : ∀ c s, ¬(c = b ∧ s = side) → ∀ o ∈ venue.orders c s, o.id ≠ target)
    (spares : ∀ o : Order, o.id ≠ target → g o = some o)
    (prices : ∀ o ∈ venue.orders b side, ∀ o' ∈ g o, o'.price = o.price ∧
      (o'.id = o.id ∨ o'.id ∈ venue.spent)) :
    Observed (revise g rested) (venue.putSide b side ((venue.orders b side).filterMap g)) := by
  have queued : ∀ id' c s, venue.indexOf id' = some c → ∀ o, o ∈ arrivals rested id' s →
      o ∈ venue.orders c s := by
    intro id' c s found' o member
    rw [observed.queues id' c s found', queueOf]
    exact (StableSort.arrangedPerm _).mem_iff.mpr member
  refine observedPut observed found ?_ (fun id' c s found' apart => ?_) (fun r' member => ?_)
  · rw [queueRevised (fun o member o' revised =>
      (prices o (queued id b side found o member) o' revised).1), observed.queues id b side found]
  · have kept : ∀ o ∈ venue.orders c s, g o = some o :=
      fun o member => spares o (elsewhere c s apart o member)
    rw [queueRevised (fun o member o' revised => by
        rw [kept o (queued id' c s found' o member)] at revised
        rw [Option.some.inj revised]),
      ← observed.queues id' c s found', StableSort.revisedSelf kept]
  · obtain ⟨r, listed, instrument, side', revised⟩ := memRevise member
    obtain ⟨⟨c, found'⟩, spent⟩ := observed.homes r listed
    refine ⟨⟨c, by rw [instrument]; exact found'⟩, ?_⟩
    have inQueue : r.order ∈ venue.orders c r.side := by
      rw [observed.queues _ c r.side found']
      exact memQueueOf.mpr listed
    by_cases here : c = b ∧ r.side = side
    · obtain ⟨rfl, rfl⟩ := here
      rcases (prices r.order inQueue r'.order revised).2 with same | used
      · rw [same]
        exact spent
      · exact used
    · rw [spares r.order (elsewhere c r.side here r.order inQueue)] at revised
      rw [← Option.some.inj revised]
      exact spent

structure Following (seen : Observer) (venue : Venue) (id : InstrumentId) (side : Side)
    (taker : Order) : Prop where
  observed : Observed seen.rested venue
  working : seen.working = some ⟨id, side, taker⟩

theorem distinctProper (proper : venue.Proper) : venue.Distinct := ⟨proper.nodup, proper.once⟩

theorem hitFront {maker : Order} {rest : List Order} (apart : ∀ o ∈ rest, o.id ≠ maker.id)
    (taker : Order) :
    (maker :: rest).filterMap (hit maker.id (min taker.openQty maker.openQty)) =
      if maker.openQty ≤ taker.openQty then rest
      else maker.fill (min taker.openQty maker.openQty) :: rest := by
  have others : rest.filterMap (hit maker.id (min taker.openQty maker.openQty)) = rest :=
    StableSort.revisedSelf (fun o member => hitOther (apart o member) _)
  have least : maker.openQty ≤ min taker.openQty maker.openQty ↔
      maker.openQty ≤ taker.openQty := by omega
  have first : hit maker.id (min taker.openQty maker.openQty) maker =
      if maker.openQty ≤ taker.openQty then none
      else some (maker.fill (min taker.openQty maker.openQty)) := by
    simp only [hit, least, if_true]
  split
  · rename_i closes
    rw [List.filterMap_cons_none (by rw [first, if_pos closes]), others]
  · rename_i open'
    rw [List.filterMap_cons_some (by rw [first, if_neg open']), others]

theorem followTrade (request : Request) {seen : Observer} {taker maker : Order} {rest : List Order}
    (distinct : base.Distinct) (found : base.indexOf id = some b)
    (sweeping : Sweeping b side base venue (maker :: rest))
    (frames : venue.books.map Book.frame = base.books.map Book.frame)
    (following : Following seen venue id side taker) :
    Following (seen.see (request, (tradeMoment id side maker venue taker).event))
      (tradeStep b side maker rest venue taker).venue id side
        (tradeStep b side maker rest venue taker).taker := by
  have unique : ∀ c s, ¬(c = b ∧ s = side.opposite) → ∀ o ∈ venue.orders c s, o.id ≠ maker.id := by
    intro c s apart o member same
    rw [sweeping.others c s apart] at member
    obtain ⟨first, inBase, sameFirst, _⟩ :=
      keyMember sweeping.suffix (List.mem_cons_self : maker ∈ maker :: rest)
    obtain ⟨rfl, rfl⟩ :=
      distinct.once c b s side.opposite o member first inBase (same.trans sameFirst.symm)
    exact apart ⟨rfl, rfl⟩
  have apart : ∀ o ∈ rest, o.id ≠ maker.id := by
    have ids := (sweeping.suffix.map Prod.fst).sublist.nodup (by
      have nodup := distinct.nodup b side.opposite
      rwa [List.map_map])
    rw [List.map_map, List.map_cons, List.nodup_cons] at ids
    exact fun o member same => ids.1 (List.mem_map.mpr ⟨o, member, same⟩)
  have found' : venue.indexOf id = some b := (indexFrames frames id).trans found
  refine ⟨?_, ?_⟩
  · have step :=
      @observedRevised seen.rested venue id b side.opposite
        (hit maker.id (min taker.openQty maker.openQty)) maker.id
      following.observed found' unique (fun o other => hitOther other _) (fun o _ o' revised => by
        unfold hit at revised
        split at revised
        · split at revised
          · contradiction
          · rw [← Option.some.inj revised]
            exact ⟨rfl, .inl rfl⟩
        · rw [← Option.some.inj revised]
          exact ⟨rfl, .inl rfl⟩)
    rw [sweeping.here, hitFront apart] at step
    exact ⟨step.queues, step.homes, step.indexed⟩
  · have worked := following.working
    simp only [tradeMoment, Observer.see, worked]
    rfl

theorem followSweep {seen : Observer} {taker : Order} {limit : Option Int} (request : Request)
    (distinct : base.Distinct) (found : base.indexOf id = some b)
    (start : Following seen base id side taker) :
    Following ((entries request
      (sweep b id side limit (base.orders b side.opposite) base taker).1).foldl Observer.see seen)
        (sweep b id side limit (base.orders b side.opposite) base taker).2.venue id side
        (sweep b id side limit (base.orders b side.opposite) base taker).2.taker ∧
      (sweep b id side limit (base.orders b side.opposite) base taker).2.taker.id = taker.id ∧
      Sweeping b side base (sweep b id side limit (base.orders b side.opposite) base taker).2.venue
        (sweep b id side limit (base.orders b side.opposite) base taker).2.opposite ∧
      (sweep b id side limit (base.orders b side.opposite) base taker).2.venue.books.map
        Book.frame = base.books.map Book.frame := by
  have swept := (@sweepInduct b id side limit
    (fun moments venue left opposite => Sweeping b side base venue opposite ∧
      venue.books.map Book.frame = base.books.map Book.frame ∧
      Following ((entries request moments).foldl Observer.see seen) venue id side left ∧
      left.id = taker.id)
    (fun moments venue left maker rest holds _ _ => by
      obtain ⟨sweeping, frames, following, same⟩ := holds
      refine ⟨sweepingStep sweeping,
        (framesPut { venue with nextTradeId := venue.nextTradeId + 1 } b side.opposite _).trans
        frames, ?_, same⟩
      rw [entries, List.map_append, List.foldl_append]
      exact followTrade request distinct found sweeping frames following)
    (base.orders b side.opposite) [] base taker ⟨sweepingStart base b side, rfl, start, rfl⟩).1
  obtain ⟨sweeping, frames, following, same⟩ := swept
  exact ⟨following, same, sweeping, frames⟩

theorem followSettle {seen : Observer} {swept : Sweep}
    (following : Following seen swept.venue id side swept.taker)
    (found : swept.venue.indexOf id = some b) (spent : swept.taker.id ∈ swept.venue.spent) :
    Observed seen.settled (settle b side swept) := by
  unfold Observer.settled settle
  simp only [following.working]
  split
  · have queue := following.observed.queues id b side found
    refine observedPut following.observed found (by rw [queueRested, queue])
      (fun id' c s found' apart => ?_) (fun r member => ?_)
    · rw [following.observed.queues id' c s found']
      refine (queueElsewhere (fun there => apart ⟨?_, there.2.symm⟩)).symm
      have same := there.1
      simp only at same
      rw [← same] at found'
      exact Option.some.inj (found'.symm.trans found)
    · rcases List.mem_append.mp member with old | new
      · exact following.observed.homes r old
      · obtain rfl := List.mem_singleton.mp new
        exact ⟨⟨b, found⟩, spent⟩
  · exact following.observed

theorem observedSpend (observed : Observed rested venue) (used : OrderId) (filled : Nat) :
    Observed rested (venue.spend used filled) where
  queues := observed.queues
  homes r member :=
    ⟨(observed.homes r member).1, List.mem_cons_of_mem _ (observed.homes r member).2⟩
  indexed := observed.indexed

theorem observedWithdraw (observed : Observed rested venue) (distinct : venue.Distinct)
    (member : order ∈ venue.orders b side) :
    Observed (revise (drop order.id) rested) (venue.withdraw b side order.id) := by
  obtain ⟨id, found⟩ := observed.indexed b side order member
  rw [withdraw, withoutDrops]
  refine observedRevised observed found (fun c s apart o inSide same => ?_)
    (fun o other => dropOther other) (fun o _ o' revised => ?_)
  · obtain ⟨rfl, rfl⟩ := distinct.once c b s side o inSide order member same
    exact apart ⟨rfl, rfl⟩
  · unfold drop at revised
    split at revised
    · contradiction
    · rw [← Option.some.inj revised]
      exact ⟨rfl, .inl rfl⟩

theorem dropsNothing {used : OrderId} (absent : ∀ r ∈ rested, r.order.id ≠ used) :
    revise (drop used) rested = rested :=
  StableSort.revisedSelf (fun r member => by rw [dropOther (absent r member)]; rfl)

theorem observerFinds (observed : Observed rested venue) (distinct : venue.Distinct)
    (member : order ∈ venue.orders b side) (found : venue.indexOf id = some b) :
    rested.find? (fun r => r.order.id = order.id) = some ⟨id, side, order⟩ := by
  have listed : (⟨id, side, order⟩ : Rested) ∈ rested := by
    rw [observed.queues id b side found] at member
    exact memQueueOf.mp member
  cases first : rested.find? (fun r => r.order.id = order.id) with
  | none => exact absurd (List.find?_eq_none.mp first _ listed) (by simp)
  | some r =>
    have same : r.order.id = order.id := by simpa using List.find?_some first
    have inRested := List.mem_of_find?_eq_some first
    obtain ⟨⟨c, found'⟩, _⟩ := observed.homes r inRested
    have inQueue : r.order ∈ venue.orders c r.side := by
      rw [observed.queues _ c r.side found']
      exact memQueueOf.mpr inRested
    obtain ⟨rfl, sides⟩ := distinct.once c b r.side side r.order inQueue order member same
    rw [sides] at inQueue
    have orders := List.inj_on_of_nodup_map (distinct.nodup c side) inQueue member same
    have instrument := (indexName found').symm.trans (indexName found)
    obtain ⟨_, _, _⟩ := r
    simp only at sides orders instrument
    rw [sides, orders, instrument]

theorem sweepingIds {opposite : List Order} (sweeping : Sweeping b side base venue opposite)
    (member : order ∈ venue.orders c s) : ∃ o ∈ base.orders c s, o.id = order.id := by
  by_cases here : c = b ∧ s = side.opposite
  · obtain ⟨rfl, rfl⟩ := here
    rw [sweeping.here] at member
    obtain ⟨o, inBase, same, _⟩ := keyMember sweeping.suffix member
    exact ⟨o, inBase, same⟩
  · rw [sweeping.others c s here] at member
    exact ⟨order, member, rfl⟩

theorem sweepingAbsent {opposite : List Order} {used : OrderId}
    (sweeping : Sweeping b side base venue opposite) (observed : Observed rested venue)
    (unused : ∀ c s, ∀ o ∈ base.orders c s, o.id ≠ used) : ∀ r ∈ rested, r.order.id ≠ used := by
  intro r member same
  obtain ⟨⟨c, found⟩, _⟩ := observed.homes r member
  have inQueue := memQueueOf.mpr member
  rw [← observed.queues _ c r.side found] at inQueue
  obtain ⟨o, inBase, sameId⟩ := sweepingIds sweeping inQueue
  exact unused c r.side o inBase (sameId.trans same)

theorem observedWorked {newOrder : NewOrder} {book : Book} (observed : Observed rested venue)
    (proper : venue.Proper) (fresh : Fresh venue newOrder b book) :
    Observed (observe rested (entries (.submit newOrder)
        (acceptedMoment newOrder (venue.spend newOrder.orderId 0) ::
          (dispose b newOrder (work b newOrder (venue.spend newOrder.orderId 0))).1)))
      (dispose b newOrder (work b newOrder (venue.spend newOrder.orderId 0))).2 := by
  have start : Following ⟨rested, some ⟨newOrder.instrumentId, newOrder.side, takerOf newOrder⟩⟩
      (venue.spend newOrder.orderId 0)
      newOrder.instrumentId newOrder.side (takerOf newOrder) := ⟨observedSpend observed _ _, rfl⟩
  have distinct : (venue.spend newOrder.orderId 0).Distinct := ⟨proper.nodup, proper.once⟩
  have found : (venue.spend newOrder.orderId 0).indexOf newOrder.instrumentId =
      some b := fresh.index
  obtain ⟨following, named, sweeping, frames⟩ :=
    @followSweep _ _ b newOrder.side _ _ (limitOf newOrder) (.submit newOrder) distinct found start
  have found' : (work b newOrder (venue.spend newOrder.orderId 0)).2.venue.indexOf
      newOrder.instrumentId = some b :=
    (indexFrames frames _).trans found
  have used : (work b newOrder (venue.spend newOrder.orderId 0)).2.taker.id ∈
      (work b newOrder (venue.spend newOrder.orderId 0)).2.venue.spent := by
    rw [work, named, sweeping.spent]
    exact List.mem_cons_self
  by_cases day : newOrder.tif = .day
  · rw [disposeSettles _ day]
    exact followSettle following found' used
  · rw [disposeDrops _ day]
    have unused : ∀ c s, ∀ o ∈ (venue.spend newOrder.orderId 0).orders c s,
        o.id ≠ newOrder.orderId :=
      fun c s o member same => fresh.unused (same ▸ proper.known c s o member)
    have absent := sweepingAbsent sweeping following.observed unused
    split
    · rw [observe, ← List.cons_append, entries, List.map_append, List.foldl_append]
      have still : Observed (revise (drop newOrder.orderId) _) _ :=
        (dropsNothing absent).symm ▸ following.observed
      exact still
    · rename_i done
      rw [List.append_nil]
      have idle : settle b newOrder.side (work b newOrder (venue.spend newOrder.orderId 0)).2 =
          (work b newOrder (venue.spend newOrder.orderId 0)).2.venue := if_neg done
      have settled : Observed _
          (settle b newOrder.side (work b newOrder (venue.spend newOrder.orderId 0)).2) :=
        followSettle following found' used
      rw [idle] at settled
      exact settled

variable {request : ReplaceOrder} {old : Order}

theorem observerReplaces (observed : Observed rested venue) (distinct : venue.Distinct)
    (member : old ∈ venue.orders b side) (named : old.id = request.orderId)
    (found : venue.indexOf id = some b) :
    Observer.replaced { rested } request.orderId request.newOrderId request.newPrice
      (replacement request old).openQty =
      if request.newPrice = old.price ∧ (replacement request old).openQty ≤ old.openQty then
        { rested := revise (swap request.orderId (replacement request old)) rested }
      else
        { rested := revise (drop request.orderId) rested,
          working := some ⟨id, side, replacement request old⟩ } := by
  have finds := observerFinds observed distinct member found
  rw [named] at finds
  rw [Observer.replaced, finds]
  rfl

theorem distinctWithdraw (distinct : venue.Distinct) (b : Nat) (side : Side) (used : OrderId) :
    (venue.withdraw b side used).Distinct := by
  have sub : ∀ c s, List.Sublist ((venue.withdraw b side used).orders c s) (venue.orders c s) := by
    intro c s
    rw [withdraw, ordersPutSide]
    split
    · rename_i here
      rw [here.1, here.2.1]
      exact List.filter_sublist
    · exact List.Sublist.refl _
  exact ⟨fun c s => (distinct.nodup c s).sublist ((sub c s).map _),
    fun c d s t o inC o' inD same => distinct.once c d s t o ((sub c s).subset inC) o'
    ((sub d t).subset inD) same⟩

theorem observedRequeued {book : Book} (observed : Observed rested venue) (proper : venue.Proper)
    (replacing : Replacing venue request b side old book)
    (loses : request.newPrice ≠ old.price ∨ old.openQty < (replacement request old).openQty) :
    Observed (observe rested
      (entries (.replace request)
        (requeue request b side old (venue.spend request.newOrderId old.filledQty)).1))
      (requeue request b side old (venue.spend request.newOrderId old.filledQty)).2 := by
  obtain ⟨_, member, named⟩ := findOpenRests replacing.found
  have distinct : (venue.spend request.newOrderId old.filledQty).Distinct :=
    ⟨proper.nodup, proper.once⟩
  have distinct' := distinctWithdraw distinct b side old.id
  obtain ⟨id, found⟩ := observed.indexed b side old member
  have away : Observed (revise (drop old.id) rested)
      ((venue.spend request.newOrderId old.filledQty).withdraw b side old.id) :=
    observedWithdraw (observedSpend observed _ _) distinct member
  have found' : ((venue.spend request.newOrderId old.filledQty).withdraw b side old.id).indexOf
      id = some b :=
    (indexPut _ _ _ _ _).trans found
  have start : Following ⟨revise (drop old.id) rested, some ⟨id, side, replacement request old⟩⟩
      ((venue.spend request.newOrderId old.filledQty).withdraw b side old.id) id side
      (replacement request old) := ⟨away, rfl⟩
  have seen := @observerReplaces rested venue id b side request old observed (distinctProper proper)
      member named found
  rw [if_neg (fun keeps => loses.elim (absurd keeps.1) (Nat.not_lt.mpr keeps.2)), ← named] at seen
  rw [requeueEqSettle]
  simp only [observe, entries, List.map_cons, List.foldl_cons]
  have opens : Observer.see { rested } (.replace request,
    (replacedMoment request (replacement request old)
      ((venue.spend request.newOrderId old.filledQty).withdraw b side old.id)
      (some (replacement request old))).event) =
        ⟨revise (drop old.id) rested, some ⟨id, side, replacement request old⟩⟩ := by
    rw [named] at seen ⊢
    exact seen
  rw [opens]
  by_cases moves : request.newPrice ≠ old.price
  · have moved : requeueSweep request b side old
        ((venue.spend request.newOrderId old.filledQty).withdraw b side old.id) =
        sweep b id side (some request.newPrice)
          (((venue.spend request.newOrderId old.filledQty).withdraw b side old.id).orders b
            side.opposite)
          ((venue.spend request.newOrderId old.filledQty).withdraw b side old.id)
          (replacement request old) := by
      rw [requeueSweep, if_pos moves, indexName found']
    obtain ⟨following, sameId, sweeping, frames⟩ :=
      @followSweep _ id b side _ (replacement request old) (some request.newPrice)
      (.replace request) distinct' found' start
    rw [moved]
    exact followSettle following ((indexFrames frames id).trans found') (by
      rw [sameId, sweeping.spent]
      exact List.mem_cons_self)
  · have stays : requeueSweep request b side old
        ((venue.spend request.newOrderId old.filledQty).withdraw b side old.id) =
        ([], ⟨(venue.spend request.newOrderId old.filledQty).withdraw b side old.id,
          replacement request old,
          ((venue.spend request.newOrderId old.filledQty).withdraw b side old.id).orders b
          side.opposite⟩) := if_neg moves
    rw [stays]
    exact @followSettle _ b side _ ⟨_, _, _⟩ start found' List.mem_cons_self

theorem observedPerform (request : Request) (proper : venue.Proper)
    (observed : Observed rested venue) :
    Observed (observe rested (entries request (perform wrappedFill request venue).1))
      (perform wrappedFill request venue).2 := by
  have shape := performed wrappedFill request venue
  generalize perform wrappedFill request venue = result at shape ⊢
  cases shape with
  | refused request used reason => exact observed
  | spoiled newOrder b book reason fresh flaw => exact observedSpend observed _ _
  | killed newOrder b book fresh valid fok short =>
    have absent : ∀ r ∈ rested, r.order.id ≠ newOrder.orderId :=
      fun r member same => fresh.unused (same ▸ (observed.homes r member).2)
    have still : Observed (revise (drop newOrder.orderId) rested)
        (venue.spend newOrder.orderId 0) := by
      rw [dropsNothing absent]
      exact observedSpend observed _ _
    exact still
  | worked newOrder b book fresh valid enough => exact observedWorked observed proper fresh
  | withdrawn request used b side old found leaves =>
    obtain ⟨_, member, rfl⟩ := findOpenRests found
    exact observedWithdraw observed (distinctProper proper) member
  | requeued request b side old book replacing loses =>
    exact observedRequeued observed proper replacing loses
  | amended request b side old book replacing samePrice fewer =>
    obtain ⟨_, member, named⟩ := findOpenRests replacing.found
    obtain ⟨id, found⟩ := observed.indexed b side old member
    have seen := @observerReplaces rested venue id b side request old observed
        (distinctProper proper) member named found
    rw [if_pos ⟨samePrice, fewer⟩] at seen
    have swapped := @observedRevised rested (venue.spend request.newOrderId old.filledQty) id b side
      (swap request.orderId (replacement request old)) request.orderId
      (observedSpend observed _ _) found
      (fun c s apart o inSide same => by
        obtain ⟨rfl, rfl⟩ := proper.once c b s side o inSide old member (same.trans named.symm)
        exact apart ⟨rfl, rfl⟩)
      (fun o other => swapOther other _)
      (fun o inSide o' revised => by
        unfold swap at revised
        split at revised
        · rename_i same
          obtain rfl := List.inj_on_of_nodup_map (proper.nodup b side) inSide member
            (same.trans named.symm)
          rw [← Option.some.inj revised]
          exact ⟨samePrice, .inr List.mem_cons_self⟩
        · rw [← Option.some.inj revised]
          exact ⟨rfl, .inl rfl⟩)
    rw [← insteadSwaps, ← named] at swapped
    simp only [observe, entries, List.map_cons, List.map_nil, List.foldl_cons, List.foldl_nil]
    have opens : (Observer.see { rested } (.replace request,
      (replacedMoment request (replacement request old)
        ((venue.spend request.newOrderId old.filledQty).putSide b side
          (instead old.id (replacement request old) (venue.orders b side))) none).event)).settled =
          revise (swap request.orderId (replacement request old)) rested := by
      have whole := congrArg Observer.settled seen
      exact whole
    rw [opens, ← named]
    exact swapped

end Observing
end Venue

namespace Engine
open OrderBook

theorem observedJournal : Journaled (fun journal venue => venue.Observed (rebuilt journal)) where
  blank :=
    ⟨fun id b side found => by contradiction, fun r member => by contradiction, fun b side o member => by contradiction⟩
  silent journal venue observed := by
    rw [rebuilt, List.foldl_append]
    exact observed
  opened journal venue instruments unspent observed := by
    have nothing : rebuilt journal = [] :=
      List.eq_nil_iff_forall_not_mem.mpr (fun r member => unspent _ (observed.homes r member).2)
    rw [rebuilt, List.foldl_append, ← rebuilt, nothing]
    refine ⟨fun id b side _ => Venue.openedOrders instruments b side,
      fun r member => by contradiction, fun b side o member => ?_⟩
    rw [Venue.openedOrders] at member
    contradiction
  step journal venue request proper observed := by
    rw [rebuilt, List.foldl_append]
    exact Venue.observedPerform request proper observed

/- What the callbacks of a run tell: every queue, and the top of every book. -/
structure Told (actions : List Action) : Prop where
  queues : ∀ b < (after actions).books.size, ∀ side,
    queuedOrders (after actions) b side =
    queueOf (rebuilt (journal actions)) ((after actions).books.read b).instrumentId side
  tops : ∀ id, (after actions).topOfBook id =
    { bidPrice := (Book.top (queueOf (rebuilt (journal actions)) id .buy)).1
      bidQuantity := UInt32.ofNat (Book.top (queueOf (rebuilt (journal actions)) id .buy)).2
      askPrice := (Book.top (queueOf (rebuilt (journal actions)) id .sell)).1
      askQuantity := UInt32.ofNat (Book.top (queueOf (rebuilt (journal actions)) id .sell)).2 }

theorem callbacksTellAll (actions : List Action) (returns : ∀ action ∈ actions, action.Returns)
    (roomy : Roomy (after actions)) : Told actions := by
  obtain ⟨venue, sim, observed⟩ := journaled observedJournal actions returns roomy
  refine ⟨fun b inside side => ?_, fun id => ?_⟩
  · rw [queuedOrdersEqVenue sim inside]
    refine observed.queues _ b side ((simBook sim).trans ?_)
    obtain ⟨_, rep, _, _⟩ := sim
    exact findBookOf rep inside
  · rw [simShown sim, Venue.shownTop]
    cases found : venue.books.findIdx? (fun book => book.instrumentId = id) with
    | none =>
      have nothing : ∀ side, queueOf (rebuilt (journal actions)) id side = [] := by
        intro side
        refine List.eq_nil_iff_forall_not_mem.mpr (fun o member => ?_)
        obtain ⟨⟨b, found'⟩, _⟩ := observed.homes _ (memQueueOf.mp member)
        rw [Venue.indexOf, found] at found'
        contradiction
      simp only [nothing]
      rfl
    | some b => simp only [observed.queues id b _ found]

theorem callbacksOfTradesTellAll :
    Told (calmRun [⟨7, 100000, 1000⟩]
      [.submit ⟨1, 7, .sell, .limit, .day, 100000, 5⟩,
        .submit ⟨2, 7, .sell, .limit, .day, 100000, 4⟩,
        .submit ⟨3, 7, .buy, .limit, .day, 100100, 7⟩, .replace ⟨2, 4, 100100, 9⟩]) :=
  callbacksTellAll _ (by simp [calmRun, Action.Returns, calmQuiet])
    (roomyOf (by decide +kernel) (by decide +kernel))

end Engine
end Xmatch
