import Xmatch.Conservation

/-! Price-time priority. Every order has a stamp, the position in the run of the call that
last put it at the back of a queue; the stamps are kept from what is reported alone. -/
namespace Xmatch

structure Place where
  price : Int
  stamp : Nat
  deriving DecidableEq, Repr

structure Tape where
  position : Nat := 0
  ledger : Ledger := fun _ => none
  places : OrderId → Option Place := fun _ => none

namespace Tape

def put (tape : Tape) (id : OrderId) (place : Place) : OrderId → Option Place :=
  fun other => if other = id then some place else tape.places other

/- A replace at an unchanged price whose new open quantity is not larger than the old one passes the
stamp on. -/
def restamp (tape : Tape) (old : OrderId) (price : Int) (qty : Nat) : Nat :=
  match tape.places old, tape.ledger old with
  | some place, some account =>
    if price = place.price ∧ qty ≤ account.left then place.stamp else tape.position
  | _, _ => tape.position

def placed (tape : Tape) : Entry → OrderId → Option Place
  | (.submit order, .accepted id) => tape.put id { price := order.price, stamp := tape.position }
  | (_, .replaced old new price qty) => tape.put new { price, stamp := tape.restamp old price qty }
  | _ => tape.places

def post (tape : Tape) (entry : Entry) : Tape :=
  { tape with ledger := tape.ledger.post entry, places := tape.placed entry }

def call (tape : Tape) (entries : List Entry) : Tape :=
  { entries.foldl post tape with position := tape.position + 1 }

def of (journal : List (List Entry)) : Tape := journal.foldl call {}

def stamp (tape : Tape) (id : OrderId) : Nat := ((tape.places id).map (·.stamp)).getD 0

/- Order `a` is to trade before order `b` of its side: at a better price, or at the same price with
a smaller stamp. -/
def Before (tape : Tape) (side : Side) (a b : Order) : Prop :=
  side.better a.price b.price ∨ a.price = b.price ∧
    ∃ first later, tape.places a.id = some first ∧ tape.places b.id = some later ∧
    first.stamp < later.stamp

end Tape

def Event.places : Event → Option OrderId
  | .accepted id => some id
  | .replaced _ new _ _ => some new
  | _ => none

namespace Tape

section Posting
variable {tape : Tape} {id : OrderId} {entry : Entry}

theorem placedOther (other : entry.2.places ≠ some id) : tape.placed entry id = tape.places id := by
  obtain ⟨request, event⟩ := entry
  cases event with
  | accepted entered =>
    have apart : id ≠ entered := fun same => other (congrArg some same.symm)
    cases request with
    | submit order => exact if_neg apart
    | cancel request => rfl
    | replace request => rfl
  | replaced old new price qty =>
    have apart : id ≠ new := fun same => other (congrArg some same.symm)
    cases request <;> exact if_neg apart
  | rejected rejected reason => cases request <;> rfl
  | canceled canceled qty reason => cases request <;> rfl
  | trade tradeId instrumentId price qty resting aggressive side => cases request <;> rfl

theorem foldPosition (entries : List Entry) :
    ∀ tape : Tape, (entries.foldl post tape).position = tape.position := by
  induction entries with
  | nil => exact fun tape => rfl
  | cons entry rest ih => exact fun tape => ih _

theorem foldLedger (entries : List Entry) : ∀ tape : Tape,
    (entries.foldl post tape).ledger = entries.foldl Ledger.post tape.ledger := by
  induction entries with
  | nil => exact fun tape => rfl
  | cons entry rest ih => exact fun tape => ih _

theorem callLedger (tape : Tape) (entries : List Entry) :
    (tape.call entries).ledger = entries.foldl Ledger.post tape.ledger := foldLedger entries tape

theorem foldOther (entries : List Entry) :
    ∀ tape : Tape, (∀ entry ∈ entries, entry.2.places ≠ some id) →
    (entries.foldl post tape).places id = tape.places id := by
  induction entries with
  | nil => exact fun tape _ => rfl
  | cons entry rest ih =>
    intro tape others
    obtain ⟨first, later⟩ := List.forall_mem_cons.mp others
    rw [List.foldl_cons, ih _ later]
    exact placedOther first

theorem ofNext (journal : List (List Entry)) (entries : List Entry) :
    of (journal ++ [entries]) = (of journal).call entries := List.foldl_append ..

theorem stampOf {place : Place} (has : tape.places id = some place) :
    tape.stamp id = place.stamp := by
  rw [stamp, has]
  rfl

end Posting
end Tape

namespace Venue

/- Every order has its place, and at each price the stamps rise along the queue. -/
structure Ranked (tape : Tape) (venue : Venue) : Prop where
  placed : ∀ b side, ∀ o ∈ venue.orders b side, ∃ place, tape.places o.id = some place ∧
    place.price = o.price ∧
    place.stamp < tape.position
  ordered : ∀ b side, (venue.orders b side).Pairwise (fun o o' => o.price = o'.price →
    tape.stamp o.id < tape.stamp o'.id)

section Ranking
variable {tape tape' : Tape} {venue next : Venue} {b : Nat} {side : Side} {order old : Order}

theorem rankedWithin (ranked : Ranked tape venue) (later : tape.position ≤ tape'.position)
    (keys : ∀ c s, ((next.orders c s).map Order.key).Sublist ((venue.orders c s).map Order.key))
    (same : ∀ c s, ∀ o ∈ next.orders c s, tape'.places o.id = tape.places o.id) :
    Ranked tape' next := by
  refine ⟨fun c s o member => ?_, fun c s => ?_⟩
  · obtain ⟨o', member', key⟩ := List.mem_map.mp ((keys c s).subset (List.mem_map_of_mem member))
    obtain ⟨sameId, samePrice⟩ := Prod.mk.inj key
    obtain ⟨place, has, price, before⟩ := ranked.placed c s o' member'
    refine ⟨place, ?_, price.trans samePrice, by omega⟩
    rw [same c s o member, ← sameId, has]
  · have byKey : ((next.orders c s).map Order.key).Pairwise (fun x y => x.2 = y.2 →
      tape.stamp x.1 < tape.stamp y.1) :=
      (List.pairwise_map.mpr (ranked.ordered c s)).sublist (keys c s)
    refine (List.pairwise_map.mp byKey).imp_of_mem (fun {o o'} member member' before equal => ?_)
    rw [Tape.stamp, Tape.stamp, same c s o member, same c s o' member']
    exact before equal

theorem enqueueLast {R : Order → Order → Prop} {xs : List Order} (sorted : Sorted side xs)
    (pairs : xs.Pairwise (fun o o' => o.price = o'.price → R o o'))
    (last : ∀ o ∈ xs, o.price = order.price → R o order) :
    (enqueue side order xs).Pairwise (fun o o' => o.price = o'.price → R o o') := by
  induction xs with
  | nil => exact List.pairwise_singleton _ _
  | cons first rest ih =>
    obtain ⟨behind, sortedRest⟩ := List.pairwise_cons.mp sorted
    obtain ⟨firstPairs, restPairs⟩ := List.pairwise_cons.mp pairs
    obtain ⟨firstLast, restLast⟩ := List.forall_mem_cons.mp last
    rw [enqueue]
    split
    · rename_i better
      refine List.pairwise_cons.mpr ⟨fun o member equal => ?_, pairs⟩
      rcases List.mem_cons.mp member with rfl | later
      · cases side <;> simp only [Side.better] at better <;> omega
      · have worse := behind o later
        cases side <;> simp only [Side.better] at better worse <;> omega
    · refine List.pairwise_cons.mpr ⟨fun o member equal => ?_, ih sortedRest restPairs restLast⟩
      rcases memEnqueue.mp member with rfl | later
      · exact firstLast equal
      · exact firstPairs o later equal

theorem rankedRest (ranked : Ranked tape venue) (sorted : Sorted side (venue.orders b side))
    (place : tape.places order.id = some { price := order.price, stamp := tape.position }) :
    Ranked { tape with position := tape.position + 1 }
      (venue.putSide b side (enqueue side order (venue.orders b side))) := by
  have later : ∀ {o : Order} {c : Nat} {s : Side}, o ∈ venue.orders c s → ∃ place,
      tape.places o.id = some place ∧
      place.price = o.price ∧ place.stamp < tape.position + 1 := by
    intro o c s member
    obtain ⟨place, has, price, before⟩ := ranked.placed c s o member
    exact ⟨place, has, price, by omega⟩
  refine ⟨fun c s o member => ?_, fun c s => ?_⟩
  · rw [ordersPutSide] at member
    split at member
    · rcases memEnqueue.mp member with rfl | rests
      · exact ⟨_, place, rfl, Nat.lt_succ_self _⟩
      · exact later rests
    · exact later member
  · rw [ordersPutSide]
    split
    · refine enqueueLast sorted (ranked.ordered b side) (fun o rests _ => ?_)
      obtain ⟨own, has, _, before⟩ := ranked.placed b side o rests
      change tape.stamp o.id < tape.stamp order.id
      rw [Tape.stampOf has, Tape.stampOf place]
      exact before
    · exact ranked.ordered c s

theorem rankedInstead (ranked : Ranked tape venue) (later : tape.position ≤ tape'.position)
    (rests : old ∈ venue.orders b side) (price : order.price = old.price)
    (own : tape'.places order.id = tape.places old.id)
    (same : ∀ c s, ∀ o ∈ venue.orders c s, o.id ≠ old.id → tape'.places o.id = tape.places o.id)
    (only : ∀ c s, ∀ o ∈ venue.orders c s, o.id = old.id → o = old ∧ c = b ∧ s = side) :
    Ranked tape' (venue.putSide b side (instead old.id order (venue.orders b side))) := by
  have placed : ∀ c s, ∀ o ∈ venue.orders c s, ∀ o' : Order, o'.price = o.price →
      tape'.places o'.id = tape.places o.id →
      ∃ place, tape'.places o'.id = some place ∧ place.price = o'.price ∧
      place.stamp < tape'.position := by
    intro c s o member o' equal has'
    obtain ⟨place, has, price, before⟩ := ranked.placed c s o member
    exact ⟨place, has'.trans has, price.trans equal.symm, by omega⟩
  have becomes : ∀ o ∈ venue.orders b side, (if o.id = old.id then order else o).price = o.price ∧
      tape'.places (if o.id = old.id then order else o).id = tape.places o.id := by
    intro o member
    split
    · rename_i named
      obtain ⟨rfl, _⟩ := only b side o member named
      exact ⟨price, own⟩
    · rename_i other
      exact ⟨rfl, same b side o member other⟩
  refine ⟨fun c s o member => ?_, fun c s => ?_⟩
  · rw [ordersPutSide] at member
    split at member
    · obtain ⟨o', member', rfl⟩ := List.mem_map.mp member
      exact placed b side o' member' _ (becomes o' member').1 (becomes o' member').2
    · rename_i elsewhere
      refine placed c s o member o rfl (same c s o member (fun named => elsewhere ?_))
      obtain ⟨_, here⟩ := only c s o member named
      exact ⟨here.1, here.2, ordersInside rests⟩
  · rw [ordersPutSide]
    split
    · refine List.pairwise_map.mpr
        ((ranked.ordered b side).imp_of_mem (fun {o o'} member member' before equal => ?_))
      obtain ⟨samePrice, sameStamp⟩ := becomes o member
      obtain ⟨samePrice', sameStamp'⟩ := becomes o' member'
      rw [Tape.stamp, Tape.stamp, sameStamp, sameStamp']
      exact before (samePrice.symm.trans (equal.trans samePrice'))
    · rename_i elsewhere
      have others : ∀ o ∈ venue.orders c s, o.id ≠ old.id := by
        intro o member named
        obtain ⟨_, here⟩ := only c s o member named
        exact elsewhere ⟨here.1, here.2, ordersInside rests⟩
      refine (ranked.ordered c s).imp_of_mem (fun {o o'} member member' before equal => ?_)
      rw [Tape.stamp, Tape.stamp, same c s o member (others o member),
        same c s o' member' (others o' member')]
      exact before equal

end Ranking

section Performing
variable {tape : Tape} {venue base : Venue} {b : Nat} {side : Side} {request : Request}
  {old : Order}

theorem sweepPlaces {instrumentId : InstrumentId} {limit : Option Int} (taker : Order) :
    ∀ moment ∈ (sweep b instrumentId side limit (base.orders b side.opposite) base taker).1,
      moment.event.places = none := by
  intro moment inside
  obtain ⟨_, _, _, _, _, _, _, _, same⟩ := (sweepSweeping base taker).2 moment inside
  rw [same]
  rfl

theorem entriesOther {moments : List Moment} {id : OrderId}
    (others : ∀ moment ∈ moments, moment.event.places ≠ some id) :
    ∀ entry ∈ entries request moments, entry.2.places ≠ some id := by
  intro entry member
  obtain ⟨moment, inside, rfl⟩ := List.mem_map.mp member
  exact others moment inside

theorem disposePlaces {order : NewOrder} {swept : List Moment × Sweep}
    (silent : ∀ moment ∈ swept.1, moment.event.places = none) :
    ∀ moment ∈ (dispose b order swept).1, moment.event.places = none := by
  intro moment member
  simp only [dispose] at member
  split at member
  · split at member
    · exact silent moment member
    · rcases List.mem_append.mp member with inside | last
      · exact silent moment inside
      · cases List.mem_singleton.mp last
        rfl
  · exact silent moment member

theorem requeuePlaces {request : ReplaceOrder} :
    ∀ moment ∈ (requeueSweep request b side old base).1, moment.event.places = none := by
  rw [requeueSweep]
  split
  · exact sweepPlaces _
  · exact fun moment impossible => absurd impossible List.not_mem_nil

theorem firstPlaces {first : Moment} {moments : List Moment} {entering : OrderId}
    (is : first.event.places = some entering)
    (silent : ∀ moment ∈ moments, moment.event.places = none) :
    ∀ moment ∈ first :: moments, ∀ id, moment.event.places = some id → id = entering := by
  intro moment member id places
  rcases List.mem_cons.mp member with rfl | later
  · exact Option.some.inj (places.symm.trans is)
  · rw [silent moment later] at places
    contradiction

theorem performPlaces (request : Request) (venue : Venue) :
    ∀ moment ∈ (perform wrappedFill request venue).1,
    ∀ id, moment.event.places = some id → id = request.entering := by
  have shape := performed wrappedFill request venue
  generalize perform wrappedFill request venue = result at shape
  have sole : ∀ {first : Moment}, first.event.places = none → ∀ moment ∈ [first], ∀ id,
      moment.event.places = some id →
      id = request.entering := by
    intro first none moment member id places
    rw [List.mem_singleton.mp member, none] at places
    contradiction
  cases shape with
  | refused request id reason => exact sole rfl
  | spoiled order b book reason fresh flaw => exact sole rfl
  | killed order b book fresh valid fok short =>
    refine firstPlaces rfl (fun moment member => ?_)
    rw [List.mem_singleton.mp member]
    rfl
  | worked order b book fresh valid enough => exact firstPlaces rfl (disposePlaces (sweepPlaces _))
  | withdrawn request id b side old found leaves => exact sole rfl
  | requeued request b side old book replacing loses =>
    rw [requeueEqSettle]
    exact firstPlaces rfl requeuePlaces
  | amended request b side old book replacing samePrice fewer =>
    exact firstPlaces rfl (fun moment impossible => absurd impossible List.not_mem_nil)

theorem foldEntering {moments : List Moment}
    (own : ∀ moment ∈ moments, ∀ id, moment.event.places = some id → id = request.entering)
    {id : OrderId} (other : id ≠ request.entering) :
    ((entries request moments).foldl Tape.post tape).places id = tape.places id :=
  Tape.foldOther _ tape (entriesOther (fun moment member places =>
    other (own moment member id places)))

theorem foldFirst {first : Moment} {moments : List Moment} {id : OrderId}
    (silent : ∀ moment ∈ moments, moment.event.places = none) :
    ((entries request (first :: moments)).foldl Tape.post tape).places id =
      tape.placed (request, first.event) id := by
  rw [entries, List.map_cons, ← entries, List.foldl_cons]
  refine Tape.foldOther _ _ (entriesOther (fun moment member => ?_))
  rw [silent moment member]
  exact Option.some_ne_none id |>.symm

theorem rankedCall {moments : List Moment}
    (ranked : Ranked ((entries request moments).foldl Tape.post tape) venue) :
    Ranked (tape.call (entries request moments)) venue := by
  refine rankedWithin ranked ?_ (fun _ _ => List.Sublist.refl _) (fun _ _ _ _ => rfl)
  rw [Tape.foldPosition]
  exact Nat.le_succ _

theorem rankedEntered {opposite : List Order} {swept : Sweep} {taker : Order} {first : Moment}
    {moments : List Moment} (sweeping : Sweeping b side base swept.venue opposite)
    (named : swept.taker.id = taker.id ∧ swept.taker.price = taker.price)
    (ranked : Ranked tape base) (proper : base.Proper) (enters : first.event.places = some taker.id)
    (outside : ∀ c s, ∀ o ∈ base.orders c s, o.id ≠ taker.id)
    (quiet : ∀ moment ∈ moments, moment.event.places = none) :
    Ranked (tape.call (entries request (first :: moments))) swept.venue ∧
      (tape.placed (request, first.event) taker.id =
          some { price := taker.price, stamp := tape.position } →
        Ranked (tape.call (entries request (first :: moments)))
          (swept.venue.putSide b side (enqueue side swept.taker (swept.venue.orders b side)))) := by
  have left : Ranked ((entries request (first :: moments)).foldl Tape.post tape) swept.venue := by
    refine rankedWithin ranked (Nat.le_of_eq (Tape.foldPosition _ _).symm) (sweepingKeys sweeping)
      (fun c s o member => ?_)
    obtain ⟨o', member', same, _⟩ := sweepingWithin sweeping c s o member
    refine Tape.foldOther _ tape
      (entriesOther (fun moment inside places => outside c s o' member' ?_))
    exact same.trans (firstPlaces enters quiet moment inside o.id places)
  refine ⟨rankedCall left, fun place => ?_⟩
  have sorted : Sorted side (swept.venue.orders b side) := by
    rw [sweeping.others b side (fun here => Side.oppositeNe side here.2.symm)]
    exact proper.sorted b side
  have rested := @rankedRest _ _ b side swept.taker left sorted (by
    rw [Tape.foldPosition, named.1, named.2, foldFirst quiet]
    exact place)
  rw [Tape.foldPosition] at rested
  exact rested

theorem disposeEnds (b : Nat) (order : NewOrder) (swept : List Moment × Sweep) :
    (dispose b order swept).2 = swept.2.venue ∨ order.tif = .day ∧ (dispose b order swept).2 =
      swept.2.venue.putSide b order.side
        (enqueue order.side swept.2.taker (swept.2.venue.orders b order.side)) := by
  simp only [dispose]
  split
  · split
    · rename_i day
      exact .inr ⟨day, rfl⟩
    · exact .inl rfl
  · exact .inl rfl

theorem requeueSweeping (request : ReplaceOrder) (b : Nat) (side : Side) (old : Order)
    (base : Venue) :
    Sweeping b side base (requeueSweep request b side old base).2.venue
      (requeueSweep request b side old base).2.opposite ∧
      (requeueSweep request b side old base).2.taker.id = (replacement request old).id ∧
      (requeueSweep request b side old base).2.taker.price = (replacement request old).price := by
  rw [requeueSweep]
  split
  · exact ⟨(sweepSweeping base _).1, sweepTaker ..⟩
  · exact ⟨sweepingStart base b side, rfl, rfl⟩

theorem restampOld (balanced : Balanced tape.ledger venue []) {place : Place}
    (rests : old ∈ venue.orders b side) (has : tape.places old.id = some place) (price : Int)
    (qty : Nat) :
    tape.restamp old.id price qty = if price = place.price ∧ qty ≤ old.openQty then place.stamp
      else tape.position := by
  have own := balanced.active old (.inr ⟨b, side, rests⟩)
  simp only [Tape.restamp, has, own, accountLeft]

theorem performRanked (request : Request) (proper : venue.Proper)
    (balanced : Balanced tape.ledger venue []) (ranked : Ranked tape venue) :
    Ranked (tape.call (entries request (perform wrappedFill request venue).1))
      (perform wrappedFill request venue).2 := by
  have shape := performed wrappedFill request venue
  generalize perform wrappedFill request venue = result at shape
  have sole : ∀ {request : Request} {first : Moment} {next : Venue}, first.event.places = none →
      (∀ c s, (next.orders c s).Sublist (venue.orders c s)) →
      Ranked (tape.call (entries request [first])) next := by
    intro request first next none within
    exact rankedWithin ranked (Nat.le_succ _) (fun c s => (within c s).map _)
      (fun c s o _ => Tape.placedOther (by rw [none]; exact (Option.some_ne_none _).symm))
  cases shape with
  | refused request id reason => exact sole rfl (fun _ _ => List.Sublist.refl _)
  | spoiled order b book reason fresh flaw => exact sole rfl (fun _ _ => List.Sublist.refl _)
  | killed order b book fresh valid fok short =>
    have outside := unusedOutside proper fresh.unused
    refine rankedCall (rankedWithin ranked (Nat.le_of_eq (Tape.foldPosition _ _).symm)
      (fun _ _ => List.Sublist.refl _)
      (fun c s o member => foldEntering ?_ (outside c s o member)))
    refine firstPlaces rfl (fun moment inside => ?_)
    rw [List.mem_singleton.mp inside]
    rfl
  | worked order b book fresh valid enough =>
    have outside := unusedOutside proper fresh.unused
    have swept := @sweepSweeping b order.instrumentId order.side (limitOf order)
        (venue.spend order.orderId 0) (takerOf order)
    have named := @sweepTaker b order.instrumentId order.side (limitOf order)
      ((venue.spend order.orderId 0).orders b order.side.opposite) (venue.spend order.orderId 0)
      (takerOf order)
    have quiet := @disposePlaces b order (work b order (venue.spend order.orderId 0))
        (sweepPlaces _)
    obtain ⟨gone, rested⟩ := @rankedEntered tape (venue.spend order.orderId 0) b order.side
      (.submit order) _ _ (takerOf order)
      (acceptedMoment order (venue.spend order.orderId 0)) _ swept.1 named ⟨ranked.placed,
        ranked.ordered⟩
      (spendProper proper outside) rfl outside quiet
    rcases disposeEnds b order (work b order (venue.spend order.orderId 0)) with ends | ⟨day, ends⟩
    · rw [ends]
      exact gone
    · rw [ends]
      refine rested ((if_pos rfl).trans ?_)
      rw [takerOf, dayLimit valid day]
      rfl
  | withdrawn request id b side old found leaves =>
    exact sole rfl (withdrawSubset venue b side old.id)
  | requeued request b side old book replacing loses =>
    obtain ⟨_, rests, oldNamed⟩ := findOpenRests replacing.found
    have outside := replacedOutside proper replacing
    have within := withdrawSubset venue b side old.id
    have base : Ranked tape
        ((venue.spend request.newOrderId old.filledQty).withdraw b side old.id) :=
      rankedWithin ranked (Nat.le_refl _) (fun c s => (within c s).map _) (fun _ _ _ _ => rfl)
    obtain ⟨sweeping, named⟩ :=
      requeueSweeping request b side old
        ((venue.spend request.newOrderId old.filledQty).withdraw b side old.id)
    rw [requeueEqSettle]
    obtain ⟨gone, rested⟩ :=
      @rankedEntered tape ((venue.spend request.newOrderId old.filledQty).withdraw b side
        old.id) b side
      (.replace request) _ _ (replacement request old)
      (replacedMoment request (replacement request old)
        ((venue.spend request.newOrderId old.filledQty).withdraw b side old.id)
        (some (replacement request old))) _ sweeping named base
      (spendProper (withdrawProper proper b side old.id) outside) rfl outside requeuePlaces
    rw [settle]
    split
    · refine rested ((if_pos rfl).trans ?_)
      obtain ⟨place, has, price, _⟩ := ranked.placed b side old rests
      rw [← oldNamed, restampOld balanced rests has, if_neg (by rw [price]; omega)]
      rfl
    · exact gone
  | amended request b side old book replacing samePrice fewer =>
    obtain ⟨_, rests, oldNamed⟩ := findOpenRests replacing.found
    have outside := replacedOutside proper replacing
    have has := withdrawHas proper rests
    obtain ⟨place, placed, price, _⟩ := ranked.placed b side old rests
    refine @rankedInstead tape _ (venue.spend request.newOrderId old.filledQty) b side
      (replacement request old) old
      ⟨ranked.placed, ranked.ordered⟩ (Nat.le_succ _) rests samePrice ((if_pos rfl).trans ?_)
      (fun c s o member other => ?_) (fun c s o member same => ?_)
    · -- the stamp is passed on
      rw [← oldNamed, restampOld balanced rests placed, if_pos ⟨samePrice.trans price.symm, fewer⟩,
        placed, samePrice, ← price]
    · refine @Tape.placedOther tape o.id (.replace request,
        .replaced request.orderId request.newOrderId request.newPrice
        (replacement request old).openQty) (fun is => ?_)
      obtain impossible | ⟨c', s', member'⟩ :=
        (withdrawHas proper rests o).mpr ⟨.inr ⟨c, s, member⟩, other⟩
      · exact absurd impossible List.not_mem_nil
      · exact outside c' s' o member' (Option.some.inj is).symm
    · obtain ⟨rfl, rfl⟩ := proper.once c b s side o member old rests same
      exact ⟨List.inj_on_of_nodup_map (proper.nodup c s) member rests same, rfl, rfl⟩

def Standing (journal : List (List Entry)) (venue : Venue) : Prop :=
  Balanced (Tape.of journal).ledger venue [] ∧ Ranked (Tape.of journal) venue ∧ Uncrossed venue

theorem rankedEmpty (tape : Tape) (empty : ∀ b side, venue.orders b side = []) :
    Ranked tape venue := by
  refine ⟨fun c s o member => ?_, fun c s => ?_⟩
  · rw [empty c s] at member
    exact absurd member List.not_mem_nil
  · rw [empty c s]
    exact List.Pairwise.nil

theorem journaledStanding : Engine.Journaled Standing where
  blank := ⟨blankBalanced _ (fun _ => rfl) _ blankOrders, rankedEmpty _ blankOrders,
    keptUncrossed.blank⟩
  silent journal venue standing := by
    rw [Standing, Tape.ofNext]
    exact ⟨standing.1, @rankedCall (Tape.of journal) venue (.cancel ⟨0⟩) [] standing.2.1,
      standing.2.2⟩
  opened journal venue instruments unspent standing := by
    rw [Standing, Tape.ofNext]
    refine ⟨blankBalanced _ (fun id => ?_) _ (openedOrders instruments),
      rankedEmpty _ (openedOrders instruments), keptUncrossed.opened instruments⟩
    by_contra some
    obtain ⟨account, found⟩ := Option.ne_none_iff_exists'.mp some
    exact unspent id (standing.1.known id account found)
  step journal venue request proper standing := by
    rw [Standing, Tape.ofNext, Tape.callLedger]
    obtain ⟨balanced, ranked, uncrossed⟩ := standing
    exact ⟨(performBalanced request proper balanced).2,
      performRanked request proper balanced ranked, (performUncrossed request proper uncrossed).1⟩

theorem tradeRanked (ranked : Ranked tape venue) {next : Venue} {book : Book} {maker taker : Order}
    {rest : List Order} {moment : Moment} {seen : List Moment}
    (trading : Trading request venue moment b book side maker rest next taker)
    (own : ∀ moment ∈ seen, ∀ id, moment.event.places = some id → id = request.entering) :
    Ranked ((entries request seen).foldl Tape.post tape) next := by
  refine rankedWithin ranked (Nat.le_of_eq (Tape.foldPosition _ _).symm) trading.keys
    (fun c s o member => ?_)
  refine foldEntering own (fun same => trading.outside c s o member ?_)
  rw [same, trading.named]

theorem firstBefore (ranked : Ranked tape venue) {maker : Order} {rest : List Order}
    (sorted : Sorted side (maker :: rest)) (front : venue.orders b side = maker :: rest) :
    ∀ other ∈ rest, tape.Before side maker other := by
  intro other member
  have mine : maker ∈ venue.orders b side := by
    rw [front]
    exact List.mem_cons_self
  have its : other ∈ venue.orders b side := by
    rw [front]
    exact List.mem_cons_of_mem _ member
  obtain ⟨first, has, _, _⟩ := ranked.placed b side maker mine
  obtain ⟨later, has', _, _⟩ := ranked.placed b side other its
  have ordered := ranked.ordered b side
  rw [front] at ordered
  have rising := List.rel_of_pairwise_cons ordered member
  have behind := List.rel_of_pairwise_cons sorted member
  by_cases equal : maker.price = other.price
  · refine .inr ⟨equal, first, later, has, has', ?_⟩
    rw [← Tape.stampOf has, ← Tape.stampOf has']
    exact rising equal
  · refine .inl ?_
    cases side <;> simp only [Side.better] at behind ⊢ <;> omega

end Performing

section Stopping
variable {venue : Venue} {b : Nat} {side : Side}

theorem disposeTraded (b : Nat) (order : NewOrder) (swept : List Moment × Sweep) :
    tradedIn ((dispose b order swept).1.map (·.event)) = tradedIn (swept.1.map (·.event)) := by
  simp only [dispose]
  split
  · split
    · rfl
    · rw [List.map_append, tradedInAppend]
      rfl
  · rfl

theorem firstTraded {first : Event} (events : List Event) (none : first.tradedQty = 0) :
    tradedIn (first :: events) = tradedIn events := by
  rw [tradedIn, List.map_cons, List.sum_cons, none, Nat.zero_add]
  rfl

theorem submitStops {order : NewOrder} (proper : venue.Proper)
    (accepted : .accepted order.orderId ∈
      (perform wrappedFill (.submit order) venue).1.map (·.event)) :
    ∃ b book, Fresh venue order b book ∧
      (tradedIn ((perform wrappedFill (.submit order) venue).1.map (·.event)) =
        order.quantity.toNat ∨
        (∀ other ∈ (perform wrappedFill (.submit order) venue).2.orders b order.side.opposite,
          order.side.accepts (limitOf order) other.price = false) ∨
        order.tif = .fok ∧ (perform wrappedFill (.submit order) venue).1.map (·.event) =
          [.accepted order.orderId,
            .canceled order.orderId order.quantity.toNat .fokUnfillable]) := by
  have shape := performed wrappedFill (.submit order) venue
  generalize perform wrappedFill (.submit order) venue = result at shape accepted
  cases shape with
  | refused request id reason =>
    have impossible := List.mem_singleton.mp accepted
    contradiction
  | spoiled order b book reason fresh flaw =>
    have impossible := List.mem_singleton.mp accepted
    contradiction
  | killed order b book fresh valid fok short => exact ⟨b, book, fresh, .inr (.inr ⟨fok, rfl⟩)⟩
  | worked order b book fresh valid enough =>
    refine ⟨b, book, fresh, ?_⟩
    have sum := workTraded b order (venue.spend order.orderId 0)
    have whole : tradedIn ((acceptedMoment order (venue.spend order.orderId 0) ::
        (dispose b order (work b order (venue.spend order.orderId 0))).1).map (·.event)) =
          tradedIn ((work b order (venue.spend order.orderId 0)).1.map (·.event)) := by
      rw [List.map_cons, firstTraded _ rfl, disposeTraded]
    have opposite : (dispose b order (work b order (venue.spend order.orderId 0))).2.orders b
        order.side.opposite =
        (work b order (venue.spend order.orderId 0)).2.venue.orders b order.side.opposite := by
      rcases disposeEnds b order (work b order (venue.spend order.orderId 0)) with ends | ⟨_, ends⟩
      · rw [ends]
      · rw [ends, ordersPutSide, if_neg (fun here => Side.oppositeNe order.side here.2.1)]
    rcases @sweepRefuses (venue.spend order.orderId 0) b order.side order.instrumentId
      (limitOf order)
      (proper.sorted b order.side.opposite) (takerOf order) with done | refused
    · refine .inl ?_
      rw [whole, ← sum]
      exact (Nat.add_eq_left.mpr done).symm
    · refine .inr (.inl ?_)
      rw [opposite]
      exact refused
  | withdrawn request id b side old found leaves => cases leaves

theorem requeueTraded (request : ReplaceOrder) (b : Nat) (side : Side) (old : Order)
    (base : Venue) :
    tradedIn ((requeueSweep request b side old base).1.map (·.event)) +
      (requeueSweep request b side old base).2.taker.openQty =
      (replacement request old).openQty := by
  rw [requeueSweep]
  split
  · exact sweepTraded ..
  · exact Nat.zero_add _

theorem replaceStops {request : Request} {old new : OrderId} {price : Int} {qty : Nat}
    (replaced : .replaced old new price qty ∈ (perform wrappedFill request venue).1.map (·.event)) :
    tradedIn ((perform wrappedFill request venue).1.map (·.event)) = qty ∨ ∃ b book side,
      venue.books[b]? = some book ∧
      ∃ order ∈ (perform wrappedFill request venue).2.orders b side, order.id = new ∧
        order.price = price := by
  have shape := performed wrappedFill request venue
  generalize perform wrappedFill request venue = result at shape replaced
  have unlike : ∀ {events : List Event}, (∀ event ∈ events, event.places = none) →
      .replaced old new price qty ∉ events := by
    intro events none member
    exact Option.some_ne_none new (none _ member)
  cases shape with
  | refused request id reason =>
    have impossible := List.mem_singleton.mp replaced
    contradiction
  | spoiled order b book reason fresh flaw =>
    have impossible := List.mem_singleton.mp replaced
    contradiction
  | killed order b book fresh valid fok short =>
    simp [acceptedMoment] at replaced
  | worked order b book fresh valid enough =>
    rcases List.mem_cons.mp replaced with impossible | later
    · contradiction
    · refine absurd later (unlike (fun event member => ?_))
      obtain ⟨moment, inside, rfl⟩ := List.mem_map.mp member
      exact disposePlaces (sweepPlaces _) moment inside
  | withdrawn request id b side old found leaves =>
    have impossible := List.mem_singleton.mp replaced
    contradiction
  | requeued request b side old book replacing loses =>
    rw [requeueEqSettle] at replaced ⊢
    have sum :=
      requeueTraded request b side old
        ((venue.spend request.newOrderId old.filledQty).withdraw b side old.id)
    have swept :=
      requeueSweeping request b side old
        ((venue.spend request.newOrderId old.filledQty).withdraw b side old.id)
    rcases List.mem_cons.mp replaced with is | later
    · cases is
      rw [List.map_cons, firstTraded _ rfl]
      by_cases left : 0 < (requeueSweep request b side old
          ((venue.spend request.newOrderId old.filledQty).withdraw b side old.id)).2.taker.openQty
      · refine .inr ⟨b, book, side, replacing.here, _, ?_, swept.2.1, swept.2.2⟩
        have length : ((venue.spend request.newOrderId old.filledQty).withdraw b side
          old.id).books.length = venue.books.length :=
          List.length_modify ..
        have inside : b < venue.books.length := (List.getElem?_eq_some_iff.mp replacing.here).1
        rw [settle, if_pos left, ordersPutSide, if_pos ⟨rfl, rfl, by rwa [swept.1.length, length]⟩]
        exact memEnqueue.mpr (.inl rfl)
      · exact .inl (by omega)
    · refine absurd later (unlike (fun event member => ?_))
      obtain ⟨moment, inside, rfl⟩ := List.mem_map.mp member
      exact requeuePlaces moment inside
  | amended request b side old book replacing samePrice fewer =>
    obtain ⟨_, rests, _⟩ := findOpenRests replacing.found
    cases List.mem_singleton.mp replaced
    refine .inr ⟨b, book, side, replacing.here, replacement request old, ?_, rfl, rfl⟩
    rw [ordersPutSide, if_pos ⟨rfl, rfl, ordersInside rests⟩]
    exact List.mem_map.mpr ⟨old, rests, if_pos rfl⟩

end Stopping
end Venue

namespace Engine
open OrderBook

structure FirstInLine (tape : Tape) (request : Request) (engine : Engine)
    (instrumentId : InstrumentId) (price : Int) (qty : Nat) (side : Side) (maker : Order)
    (aggressor : OrderRecord) : Prop where
  rests : maker ∈ restingOrders engine instrumentId side.opposite
  stamped : ∃ place, tape.places maker.id = some place ∧ place.price = maker.price
  first : ∀ other ∈ restingOrders engine instrumentId side.opposite, other ≠ maker →
    tape.Before side.opposite maker other
  limit : side.accepts request.limit price = true
  price : price = maker.price
  quantity : qty = min aggressor.openQty.toNat maker.openQty

def TradeInLine (tape : Tape) (request : Request) (callback : Callback) : Prop :=
  match callback.event with
  | .trade _ instrumentId price qty resting aggressive side =>
    ∃ maker slot, maker.id = resting ∧ callback.seen.orderIndex.find aggressive = some slot ∧
      (callback.seen.pool.get slot).id = aggressive ∧
      FirstInLine tape request callback.seen instrumentId price qty side maker
      (callback.seen.pool.get slot)
  | _ => True

def NoneLeft (engine : Engine) (instrumentId : InstrumentId) (side : Side) (limit : Option Int) :
    Prop :=
  ∀ other ∈ restingOrders engine instrumentId side.opposite, side.accepts limit other.price = false

/- The callbacks of one call, each judged by what has been reported before it, and where matching
stops: nothing after it touches the opposite side. -/
structure CallInLine (tape : Tape) (request : Request) (session : Session) : Prop where
  trades : ∀ n callback, session.log[n]? = some callback →
    TradeInLine ((((session.events.take n).map (request, ·))).foldl Tape.post tape) request callback
  submitted : ∀ order, request = .submit order → .accepted order.orderId ∈ session.events →
    tradedIn session.events = order.quantity.toNat ∨
    NoneLeft session.engine order.instrumentId order.side request.limit ∨
      order.tif = .fok ∧ session.events = [.accepted order.orderId,
        .canceled order.orderId order.quantity.toNat .fokUnfillable]
  replaced : ∀ old new price qty, .replaced old new price qty ∈ session.events →
    tradedIn session.events = qty ∨
    ∃ instrumentId side, (∃ order ∈ restingOrders session.engine instrumentId side,
      order.id = new) ∧
      NoneLeft session.engine instrumentId side (some price)

section Calls
variable {engine : Engine} {venue : Venue} {request : Request} {tape : Tape} {b : Nat} {side : Side}

theorem simNamed (sim : Sim engine venue) {book : Book} (here : venue.books[b]? = some book) :
    engine.findBook book.instrumentId = some b := by
  obtain ⟨queues, rep, _, view⟩ := sim
  have inside : b < engine.books.size := by
    by_contra past
    rw [view.books, List.getElem?_map, List.getElem?_eq_none (by simpa using past)] at here
    contradiction
  cases Option.some.inj (here.symm.trans (bookAt view inside))
  exact findBookOf rep inside

theorem callbackInLine {callback : Callback} {moment : Moment} {seen : List Moment}
    (follows : Follows callback moment) {book : Book} {maker taker : Order} {rest : List Order}
    {next : Venue} (trading : Venue.Trading request venue moment b book side maker rest next taker)
    (sim : Sim engine venue) (ranked : venue.Ranked tape)
    (own : ∀ moment ∈ seen, ∀ id, moment.event.places = some id → id = request.entering) :
    TradeInLine ((Venue.entries request seen).foldl Tape.post tape) request callback := by
  have ranks := Venue.tradeRanked ranked trading own
  have before := Venue.firstBefore ranks trading.sorted trading.front
  have front : maker ∈ next.orders b side.opposite := by
    rw [trading.front]
    exact List.mem_cons_self
  obtain ⟨place, has, priced, _⟩ := ranks.placed b side.opposite maker front
  obtain ⟨slot, _, waiting⟩ := follows.working taker (by rw [trading.is]; rfl)
  have shown : Sim callback.seen { next with nextTradeId := next.nextTradeId + 1 } := by
    have seen := follows.sim
    rw [trading.is] at seen
    exact seen
  have found : callback.seen.findBook book.instrumentId = some b := by
    rw [← simBook shown, Venue.frameIndex, trading.frames, ← Venue.frameIndex, simBook sim]
    exact simNamed sim trading.here
  have perm : (restingOrders callback.seen book.instrumentId side.opposite).Perm
      (maker :: rest) := by
    have same := simPerm shown found side.opposite
    rwa [show ({ next with nextTradeId := next.nextTradeId + 1 } : Venue).orders b side.opposite =
      _ from trading.front] at same
  rw [TradeInLine, follows.event, trading.is]
  refine ⟨maker, slot, rfl, waiting.indexed, waiting.id, perm.symm.subset List.mem_cons_self,
    ⟨place, has, priced⟩, fun other member unlike => ?_, trading.accepted, rfl,
    by rw [waiting.openQty]⟩
  exact before other ((List.mem_cons.mp (perm.subset member)).resolve_left unlike)

theorem followsAt {callbacks : List Callback} {moments : List Moment}
    (follows : List.Forall₂ Follows callbacks moments) {n : Nat} {callback : Callback}
    (here : callbacks[n]? = some callback) :
    ∃ moment, moments[n]? = some moment ∧ Follows callback moment := by
  obtain ⟨inside, rfl⟩ := List.getElem?_eq_some_iff.mp here
  have inside' : n < moments.length := by
    rw [← follows.length_eq]
    exact inside
  exact ⟨moments[n], List.getElem?_eq_getElem inside', follows.get inside inside'⟩

theorem callInLine (sim : Sim engine venue) (room : engine.pool.size < kInvalidSlot.toNat)
    (ranked : venue.Ranked tape) (uncrossed : venue.Uncrossed) {env : Env} (quiet : env.Quiet)
    (request : Request) : CallInLine tape request (call env request engine) := by
  have proper := simProper sim
  have grown := callGrown env request engine
  obtain ⟨venue', outcome⟩ := callOutcome sim room env request
  have sim' := outcomeSim outcome
  rcases quietOutcome quiet outcome with ⟨follows, rfl⟩ | ⟨_, silent, rfl⟩
  · have events : (call env request engine).events = (Venue.perform wrappedFill request venue).1.map
        (·.event) := followsEvents follows
    have found : ∀ {b : Nat} {book : Book}, venue.books[b]? = some book →
        (call env request engine).engine.findBook book.instrumentId = some b := by
      intro b book here
      rw [findBook, grown.instrumentIndex]
      exact simNamed sim here
    refine ⟨fun n callback here => ?_, ?_, ?_⟩
    · obtain ⟨moment, at', shows⟩ := followsAt follows here
      have inside := List.mem_of_getElem? at'
      have seen : ((call env request engine).events.take n).map (request, ·) =
          Venue.entries request ((Venue.perform wrappedFill request venue).1.take n) := by
        rw [events, ← List.map_take, List.map_map]
        rfl
      rw [seen]
      by_cases trade : moment.event.isTrade = true
      · obtain ⟨b, book, side, maker, rest, next, taker, trading⟩ :=
          Venue.performTrades request proper moment inside trade
        exact callbackInLine shows trading sim ranked
          (fun earlier taken => Venue.performPlaces request venue earlier
            (List.mem_of_mem_take taken))
      · rw [TradeInLine, shows.event]
        split
        · rename_i is
          rw [is] at trade
          exact absurd rfl trade
        · trivial
    · rintro order rfl accepted
      rw [events] at accepted ⊢
      obtain ⟨b, book, fresh, stops⟩ := Venue.submitStops proper accepted
      refine stops.imp_right (Or.imp_left (fun refused other member => refused other ?_))
      rw [Venue.freshInstrument fresh] at member
      exact (simPerm sim' (found fresh.here) _).subset member
    · intro old new price qty replaced
      rw [events] at replaced ⊢
      refine (Venue.replaceStops replaced).imp_right (fun lasting => ?_)
      obtain ⟨b, book, side, here, order, rests, named, priced⟩ := lasting
      refine ⟨book.instrumentId, side,
        ⟨order, (simPerm sim' (found here) side).symm.subset rests, named⟩, fun other member => ?_⟩
      rw [← priced]
      exact Venue.uncrossedIff.mp (Venue.performUncrossed request proper uncrossed).1 b side
        order rests other
        ((simPerm sim' (found here) _).subset member)
  · have none : (call env request engine).events = [] := by
      rw [Session.events, silent]
      rfl
    refine ⟨fun n callback here => ?_, fun order _ accepted => ?_,
      fun old new price qty replaced => ?_⟩
    · rw [silent] at here
      contradiction
    · rw [none] at accepted
      contradiction
    · rw [none] at replaced
      contradiction

end Calls

theorem priceTimePriority (actions : List Action) (returns : ∀ action ∈ actions, action.Returns)
    (roomy : Roomy (after actions)) (env : Env) (quiet : env.Quiet) (request : Request) :
    CallInLine (Tape.of (journal actions)) request (call env request (after actions)) := by
  obtain ⟨venue, sim, _, ranked, uncrossed⟩ :=
    journaled Venue.journaledStanding actions returns roomy
  exact callInLine sim roomy.slots ranked uncrossed quiet request

theorem smallerReplaceStaysInLine :
    CallInLine (Tape.of (journal
      (calmRun [⟨7, 100000, 1000⟩] [.submit ⟨1, 7, .sell, .limit, .day, 100100, 5⟩,
        .submit ⟨2, 7, .sell, .limit, .day, 100100, 5⟩, .replace ⟨1, 3, 100100, 4⟩])))
      (.submit ⟨4, 7, .buy, .limit, .ioc, 100100, 6⟩)
      (call .calm (.submit ⟨4, 7, .buy, .limit, .ioc, 100100, 6⟩)
        (after (calmRun [⟨7, 100000, 1000⟩] [.submit ⟨1, 7, .sell, .limit, .day, 100100, 5⟩,
          .submit ⟨2, 7, .sell, .limit, .day, 100100, 5⟩, .replace ⟨1, 3, 100100, 4⟩]))) :=
  priceTimePriority _ (by simp [calmRun, Action.Returns, Env.calm, Env.Quiet])
    (roomyOf (by decide +kernel) (by decide +kernel))
    .calm calmQuiet _

-- A smaller order keeps the stamp under its new id; a larger one, or one at another price, does
-- not.
example : [[Request.replace ⟨1, 3, 100100, 4⟩], [.replace ⟨1, 3, 100100, 6⟩],
  [.replace ⟨1, 3, 100200, 4⟩]].map (fun more =>
    (Tape.of (journal (calmRun [⟨7, 100000, 1000⟩] ([.submit ⟨1, 7, .sell, .limit, .day, 100100, 5⟩,
      .submit ⟨2, 7, .sell, .limit, .day, 100100, 5⟩] ++ more)))).places 3) =
    [some ⟨100100, 1⟩, some ⟨100100, 3⟩, some ⟨100200, 3⟩] := by decide +kernel

end Engine
end Xmatch
