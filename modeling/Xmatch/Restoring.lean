import Xmatch.Draining
import Xmatch.Equivalences
import Xmatch.Interrupting

/-! Orders that only rest: a queue is the orders that came to it, sorted by price and in the
order they came. So every book can be had again, in an engine that has just been configured,
by sending what rests in it. -/
namespace Xmatch

def Order.renewed (order : Order) : Order := { order with filledQty := 0 }

namespace Venue

def restAll (entries : List (Nat × NewOrder)) (venue : Venue) : Venue :=
  entries.foldl (fun venue entry => rest entry.2 entry.1 venue) venue

def PassiveAll : List (Nat × NewOrder) → Venue → Prop
  | [], _ => True
  | entry :: more, venue =>
    Passive entry.2 entry.1 venue ∧ PassiveAll more (rest entry.2 entry.1 venue)

def arriving (entries : List (Nat × NewOrder)) (b : Nat) (side : Side) : List Order :=
  (entries.filter (fun entry => entry.1 = b ∧ entry.2.side = side)).map
    (fun entry => takerOf entry.2)

section Resting
variable {venue : Venue} {entries : List (Nat × NewOrder)} {entry : Nat × NewOrder} {b : Nat}
  {side : Side} {book : Book}

theorem arrivingCons (entry : Nat × NewOrder) (more : List (Nat × NewOrder)) :
    arriving (entry :: more) b side = if entry.1 = b ∧ entry.2.side = side then takerOf entry.2 ::
      arriving more b side
      else arriving more b side := by
  simp only [arriving, List.filter_cons, decide_eq_true_eq]
  split <;> rfl

theorem restAllOrders (entries : List (Nat × NewOrder)) :
    ∀ venue : Venue, (∀ entry ∈ entries, entry.1 < venue.books.length) →
    (restAll entries venue).orders b side = (arriving entries b side).foldl (fun queue o =>
      enqueue side o queue) (venue.orders b side) := by
  induction entries with
  | nil => exact fun _ _ => rfl
  | cons entry more ih =>
    intro venue inside
    have later :=
      ih (rest entry.2 entry.1 venue)
        (fun e member => by rw [restLength]; exact inside e (List.mem_cons_of_mem _ member))
    rw [arrivingCons]
    refine later.trans ?_
    rw [restOrders]
    by_cases here : entry.1 = b ∧ entry.2.side = side
    · obtain ⟨rfl, rfl⟩ := here
      rw [if_pos ⟨rfl, rfl, inside entry List.mem_cons_self⟩, if_pos ⟨rfl, rfl⟩]
      rfl
    · rw [if_neg (fun there => here ⟨there.1.symm, there.2.1.symm⟩), if_neg here]

theorem restAllSorts (sorted : Sorted side (venue.orders b side))
    (inside : ∀ entry ∈ entries, entry.1 < venue.books.length) :
    (restAll entries venue).orders b side = StableSort.arranged (ahead side) (venue.orders b side ++
      arriving entries b side) := by
  have places : ∀ (orders queue : List Order),
      orders.foldl (fun queue o => enqueue side o queue) queue =
      orders.foldl (fun queue o => StableSort.place (ahead side) o queue) queue := by
    intro orders queue
    exact congrArg (fun f => orders.foldl f queue) (funext fun queue => funext fun o =>
      enqueuePlaces side o queue)
  have before : StableSort.arranged (ahead side) (venue.orders b side) = venue.orders b side :=
    StableSort.arrangedSelf _ sorted
  rw [restAllOrders entries venue inside, places, StableSort.arranged, List.foldl_append]
  exact congrArg (fun queue =>
    (arriving entries b side).foldl (fun queue o => StableSort.place (ahead side) o queue)
    queue) before.symm

theorem restAllFrames (entries : List (Nat × NewOrder)) : ∀ venue : Venue,
    (restAll entries venue).books.map Book.frame = venue.books.map Book.frame ∧
      (restAll entries venue).configured = venue.configured ∧
      ∀ id, id ∈ (restAll entries venue).spent ↔
      id ∈ entries.map (·.2.orderId) ∨ id ∈ venue.spent := by
  induction entries with
  | nil => exact fun venue => ⟨rfl, rfl, fun id => by simp [restAll]⟩
  | cons entry more ih =>
    intro venue
    obtain ⟨frames, configured, spent⟩ := ih (rest entry.2 entry.1 venue)
    refine ⟨frames.trans (restFrames ..), configured, fun id => (spent id).trans ?_⟩
    have used : (rest entry.2 entry.1 venue).spent = entry.2.orderId :: venue.spent := rfl
    rw [used, List.map_cons, List.mem_cons, List.mem_cons]
    exact or_left_comm.trans or_assoc.symm

theorem freshBehind {other : NewOrder} (fresh : Fresh venue other b book)
    (apart : other.orderId ≠ entry.2.orderId) :
    ∃ book', Fresh (rest entry.2 entry.1 venue) other b book' ∧
      invalid book' other = invalid book other := by
  have configured : (rest entry.2 entry.1 venue).configured = venue.configured := rfl
  refine freshFrames configured (restFrames entry.2 entry.1 venue) fresh (fun used => ?_)
  rcases List.mem_cons.mp used with same | before
  · exact apart same
  · exact fresh.unused before

/- It is enough that none crosses what is there, and no two cross. -/
theorem passiveAll (entries : List (Nat × NewOrder)) :
    ∀ venue : Venue, (∀ entry ∈ entries, Passive entry.2 entry.1 venue) →
    (∀ entry ∈ entries, ∀ other ∈ entries, entry.1 = other.1 →
      entry.2.side = other.2.side.opposite →
      other.2.side.accepts (limitOf other.2) (takerOf entry.2).price = false) →
    PassiveAll entries venue := by
  induction entries with
  | nil => exact fun _ _ _ => trivial
  | cons entry more ih =>
    intro venue passive apart
    refine ⟨passive entry List.mem_cons_self,
      ih _ (fun other member o queued => ?_) (fun e inMore other inMore' =>
      apart e (List.mem_cons_of_mem _ inMore) other (List.mem_cons_of_mem _ inMore'))⟩
    have still := passive other (List.mem_cons_of_mem _ member)
    rw [restOrders] at queued
    split at queued
    · rename_i here
      obtain ⟨same, opposite, _⟩ := here
      rcases memEnqueue.mp queued with rfl | before
      · exact apart entry List.mem_cons_self other (List.mem_cons_of_mem _ member)
          same.symm opposite.symm
      · exact still o (by rw [same, opposite]; exact before)
    · exact still o queued

end Resting
end Venue

namespace Engine
open OrderBook Venue

def submits (entries : List (Nat × NewOrder)) : List Request :=
  entries.map (fun entry => .submit entry.2)

structure Enterable (venue : Venue) (entries : List (Nat × NewOrder)) : Prop where
  each : ∀ entry ∈ entries, entry.2.tif = .day ∧ ∃ book, Fresh venue entry.2 entry.1 book ∧
    Venue.invalid book entry.2 = none
  distinct : (entries.map (·.2.orderId)).Nodup

section Entering
variable {engine : Engine} {venue : Venue} {entry : Nat × NewOrder}
  {entries more : List (Nat × NewOrder)}

theorem enterableRest (enterable : Enterable venue (entry :: more)) :
    Enterable (rest entry.2 entry.1 venue) more := by
  obtain ⟨own, distinct⟩ := List.nodup_cons.mp enterable.distinct
  refine ⟨fun other member => ?_, distinct⟩
  obtain ⟨day, book, fresh, valid⟩ := enterable.each other (List.mem_cons_of_mem _ member)
  have apart : other.2.orderId ≠ entry.2.orderId :=
    fun same => own (List.mem_map.mpr ⟨other, member, same⟩)
  obtain ⟨book', fresh', same⟩ := freshBehind fresh apart
  exact ⟨day, book', fresh', same.trans valid⟩

theorem firstRests (enterable : Enterable venue (entry :: more))
    (passive : Passive entry.2 entry.1 venue) :
    Venue.perform wrappedFill (.submit entry.2) venue =
      ([acceptedMoment entry.2 (venue.spend entry.2.orderId 0)], rest entry.2 entry.1 venue) := by
  obtain ⟨day, book, fresh, valid⟩ := enterable.each entry List.mem_cons_self
  exact passiveRests fresh valid day passive

theorem sessionRests (entries : List (Nat × NewOrder)) :
    ∀ (engine : Engine) (venue : Venue), Sim engine venue → Enterable venue entries →
    PassiveAll entries venue → Roomy (session (submits entries) engine) →
    Sim (session (submits entries) engine) (restAll entries venue) ∧
      eventsOf (submits entries) engine = entries.map (fun entry => .accepted entry.2.orderId) := by
  induction entries with
  | nil => exact fun _ _ sim _ _ _ => ⟨sim, rfl⟩
  | cons entry more ih =>
    intro engine venue sim enterable passive roomy
    have room := (roomyBefore (callsGrown (submits (entry :: more)) engine) roomy).slots
    have rests := firstRests enterable passive.1
    have events := calmEvents sim room (.submit entry.2)
    obtain ⟨_, next⟩ := calmCall sim room (.submit entry.2)
    rw [rests] at events next
    obtain ⟨last, later⟩ := ih _ _ next (enterableRest enterable) passive.2 roomy
    refine ⟨last, ?_⟩
    rw [submits, List.map_cons, eventsOf, events, List.map_cons]
    exact congrArg (_ :: ·) later

theorem untradedPassiveAll (entries : List (Nat × NewOrder)) :
    ∀ (engine : Engine) (venue : Venue), Sim engine venue →
    Enterable venue entries → (∀ event ∈ eventsOf (submits entries) engine, event.isTrade = false) →
    Roomy (session (submits entries) engine) → PassiveAll entries venue := by
  induction entries with
  | nil => exact fun _ _ _ _ _ _ => trivial
  | cons entry more ih =>
    intro engine venue sim enterable untraded roomy
    have room := (roomyBefore (callsGrown (submits (entry :: more)) engine) roomy).slots
    obtain ⟨day, book, fresh, valid⟩ := enterable.each entry List.mem_cons_self
    rw [submits, List.map_cons, eventsOf] at untraded
    have passive : Passive entry.2 entry.1 venue := by
      refine untradedPassive (simProper sim) fresh valid day (fun moment member =>
        untraded moment.event (List.mem_append_left _ ?_))
      rw [calmEvents sim room]
      exact List.mem_map_of_mem member
    obtain ⟨_, next⟩ := calmCall sim room (.submit entry.2)
    rw [firstRests enterable passive] at next
    exact ⟨passive, ih _ _ next (enterableRest enterable) (fun event member =>
      untraded event (List.mem_append_right _ member)) roomy⟩

end Entering

structure SortsIn (engine : Engine) (entries : List (Nat × NewOrder)) : Prop where
  accepted : eventsOf (submits entries) engine =
    entries.map (fun entry => .accepted entry.2.orderId)
  queues : ∀ b < engine.books.size, ∀ side, queuedOrders (session (submits entries) engine) b side =
    StableSort.arranged (ahead side) (queuedOrders engine b side ++ arriving entries b side)

theorem restingOrdersSort (actions : List Action) (entries : List (Nat × NewOrder))
    (valid : ∀ entry ∈ entries, ValidSubmit (after actions) entry.2 entry.1)
    (day : ∀ entry ∈ entries, entry.2.tif = .day) (distinct : (entries.map (·.2.orderId)).Nodup)
    (untraded : ∀ event ∈ eventsOf (submits entries) (after actions), event.isTrade = false)
    (roomy : Roomy (session (submits entries) (after actions))) :
    SortsIn (after actions) entries := by
  have grown := callsGrown (submits entries) (after actions)
  obtain ⟨venue, sim, _⟩ := reached keptTrivial actions (roomyBefore grown roomy)
  have enterable : Enterable venue entries :=
    ⟨fun entry member => ⟨day entry member, validFresh sim (valid entry member)⟩, distinct⟩
  obtain ⟨last, accepted⟩ :=
    sessionRests entries _ venue sim enterable
      (untradedPassiveAll entries _ venue sim enterable untraded roomy) roomy
  refine ⟨accepted, fun b inside side => ?_⟩
  rw [queuedOrdersEqVenue last (by rw [grown.books]; exact inside), queuedOrdersEqVenue sim inside]
  refine restAllSorts ((simProper sim).sorted b side) (fun entry member => ?_)
  obtain ⟨_, _, fresh, _⟩ := enterable.each entry member
  exact (List.getElem?_eq_some_iff.mp fresh.here).1

theorem fourRestSorted :
    SortsIn (after (calmRun [⟨7, 100000, 1000⟩] [.submit ⟨1, 7, .sell, .limit, .day, 100100, 5⟩]))
    [(0, ⟨2, 7, .sell, .limit, .day, 100100, 3⟩), (0, ⟨3, 7, .buy, .limit, .day, 99900, 4⟩),
      (0, ⟨4, 7, .sell, .limit, .day, 100000, 2⟩)] :=
  restingOrdersSort _ _ (fun entry member => by
    simp only [List.mem_cons, List.not_mem_nil, or_false] at member
    rcases member with rfl | rfl | rfl <;>
      exact ⟨by decide +kernel, by decide +kernel, by decide +kernel, by decide +kernel⟩)
    (by decide) (by decide) (by decide +kernel) (roomyOf (by decide +kernel) (by decide +kernel))

def asNew (instrumentId : InstrumentId) (side : Side) (order : Order) : NewOrder :=
  { orderId := order.id, instrumentId, side, type := .limit, tif := .day, price := order.price,
    quantity := UInt32.ofNat order.openQty }

def quotes (engine : Engine) (b : Nat) (side : Side) : List (Nat × NewOrder) :=
  (queuedOrders engine b side).map (fun o => (b, asNew (engine.books.read b).instrumentId side o))

def snapshot (engine : Engine) : List (Nat × NewOrder) :=
  (List.range engine.books.size).flatMap (fun b => quotes engine b .buy ++ quotes engine b .sell)

section Snapshots
variable {start engine : Engine} {venue base : Venue} {b : Nat} {side : Side} {order : Order}
  {entry : Nat × NewOrder}

theorem memQuotes : entry ∈ quotes engine b side ↔
    ∃ o ∈ queuedOrders engine b side,
      entry = (b, asNew (engine.books.read b).instrumentId side o) := by
  rw [quotes, List.mem_map]
  exact exists_congr (fun o => and_congr_right (fun _ => eq_comm))

theorem memSnapshot : entry ∈ snapshot engine ↔ ∃ b < engine.books.size, ∃ side,
    entry ∈ quotes engine b side := by
  rw [snapshot, List.mem_flatMap]
  refine exists_congr (fun b => ?_)
  rw [List.mem_range, List.mem_append]
  refine and_congr_right (fun _ => ⟨fun either => ?_, fun ⟨side, member⟩ => ?_⟩)
  · rcases either with buys | sells
    · exact ⟨.buy, buys⟩
    · exact ⟨.sell, sells⟩
  · cases side
    · exact .inl member
    · exact .inr member

theorem takerAsNew (fits : order.openQty < 2 ^ 32) (instrumentId : InstrumentId) :
    takerOf (asNew instrumentId side order) = order.renewed := by
  have quantity : (UInt32.ofNat order.openQty).toNat = order.openQty := WordBits.toNatOfNat fits
  simp only [takerOf, asNew, Venue.limitOf, quantity, Order.renewed]
  rfl

theorem arrivingQuotes (fits : ∀ o ∈ queuedOrders engine b side, o.openQty < 2 ^ 32) (c : Nat)
    (s : Side) :
    arriving (quotes engine b side) c s = if b = c ∧ side = s then (queuedOrders engine b side).map
      Order.renewed else [] := by
  have own : ∀ o : Order, (b, asNew (engine.books.read b).instrumentId side o).2.side =
      side := fun _ => rfl
  by_cases here : b = c ∧ side = s
  · have all : (quotes engine b side).filter (fun entry => entry.1 = c ∧ entry.2.side = s) =
        quotes engine b side := by
      refine List.filter_eq_self.mpr (fun entry member => ?_)
      obtain ⟨o, _, rfl⟩ := memQuotes.mp member
      exact decide_eq_true ⟨here.1, (own o).trans here.2⟩
    rw [if_pos here, arriving, all, quotes, List.map_map]
    exact List.map_congr_left (fun o member => takerAsNew (fits o member) _)
  · have none : (quotes engine b side).filter (fun entry => entry.1 = c ∧
      entry.2.side = s) = [] := by
      refine List.filter_eq_nil_iff.mpr (fun entry member => ?_)
      obtain ⟨o, _, rfl⟩ := memQuotes.mp member
      exact fun kept => here ⟨(of_decide_eq_true kept).1,
        (own o).symm.trans (of_decide_eq_true kept).2⟩
    rw [if_neg here, arriving, none]
    rfl

theorem queuedFits (sim : Sim engine venue) (inside : b < engine.books.size) :
    ∀ o ∈ queuedOrders engine b side, o.openQty < 2 ^ 32 := by
  intro o member
  rw [queuedOrdersEqVenue sim inside] at member
  have fits := (simProper sim).fits b side o member
  omega

theorem arrivingSnapshot (sim : Sim engine venue) (inside : b < engine.books.size) (side : Side) :
    arriving (snapshot engine) b side = (queuedOrders engine b side).map Order.renewed := by
  have parts : ∀ one two : List (Nat × NewOrder), arriving (one ++ two) b side =
      arriving one b side ++ arriving two b side := by
    intro one two
    rw [arriving, List.filter_append, List.map_append]
    rfl
  have book : ∀ c < engine.books.size,
      arriving (quotes engine c .buy ++ quotes engine c .sell) b side =
      if c = b then (queuedOrders engine b side).map Order.renewed else [] := by
    intro c within
    rw [parts, arrivingQuotes (queuedFits sim within), arrivingQuotes (queuedFits sim within)]
    by_cases same : c = b
    · subst same
      cases side <;> simp
    · simp [same]
  have upTo : ∀ n ≤ engine.books.size,
      arriving ((List.range n).flatMap (fun c => quotes engine c .buy ++
        quotes engine c .sell)) b side =
        if b < n then (queuedOrders engine b side).map Order.renewed else [] := by
    intro n
    induction n with
    | zero => exact fun _ => rfl
    | succ n ih =>
      intro few
      rw [List.range_succ, List.flatMap_append, List.flatMap_singleton, parts, ih (by omega),
        book n (by omega)]
      by_cases before : b < n
      · rw [if_pos before, if_neg (by omega), if_pos (by omega), List.append_nil]
      · by_cases last : n = b
        · rw [if_neg before, if_pos last, if_pos (by omega), List.nil_append]
        · rw [if_neg before, if_neg last, if_neg (by omega), List.append_nil]
  exact (upTo _ (Nat.le_refl _)).trans (if_pos inside)

theorem restsInside (sim : Sim engine venue) (member : order ∈ venue.orders b side) :
    b < engine.books.size := by
  obtain ⟨_, rep, _, view⟩ := sim
  exact ((orderSlot rep view).mp member).1

theorem queuedPriced (sim : Sim engine venue) (member : order ∈ venue.orders b side) :
    TickTable.isTickAligned kTickSchedule order.price = true ∧
      0 ≤ (engine.books.read b).priceToIndex order.price := by
  obtain ⟨queues, rep, _, view⟩ := sim
  obtain ⟨inside, level, slot, here, rfl⟩ := (orderSlot rep view).mp member
  have shape := rep.shape b inside
  have below : level < (engine.books.read b).levelCount := by
    by_contra past
    rw [shape.beyond side level (Nat.not_lt.mp past)] at here
    contradiction
  obtain ⟨aligned, _, _, index⟩ := (rep.fitted b inside).numbered.price level below
  have price : (viewOrder engine.pool slot).price = _ := (shape.home side level slot here).price
  rw [price]
  exact ⟨aligned, by rw [priceToIndex, indexToPrice, index]; omega⟩

theorem quoteValid {instruments : List InstrumentConfig}
    (installed : Installed {} instruments start) (grown : Grown start engine)
    (simStart : Sim start base) (sim : Sim engine venue) (member : order ∈ venue.orders b side) :
    ValidSubmit start (asNew (engine.books.read b).instrumentId side order) b := by
  have proper := simProper sim
  obtain ⟨aligned, priced⟩ := queuedPriced sim member
  have inside := restsInside sim member
  have frame := grown.frame b
  obtain ⟨_, rep, _, _⟩ := simStart
  have quantity : UInt32.ofNat order.openQty ≠ 0 := by
    intro zero
    have same := congrArg UInt32.toNat zero
    have fits := proper.fits b side order member
    have left := proper.left b side order member
    rw [WordBits.toNatOfNat (by omega)] at same
    exact absurd same (Nat.pos_iff_ne_zero.mp left)
  refine ⟨installed.configured, ?_, ?_, ?_⟩
  · rw [asNew, frame.instrumentId]
    exact findBookOf rep (by rw [← grown.books]; exact inside)
  · rw [installed.orderIndex, (FlatHashMap.reserveValid FlatHashMap.emptyValid.1 _).2,
      FlatHashMap.emptyValid.2]
  · have inBand : ¬(start.books.read b).priceToIndex order.price < 0 := by
      rw [priceToIndex, ← frame.ladder]
      exact Int.not_lt.mpr priced
    have both : ¬(OrderType.limit = .market ∧ TimeInForce.day = .day) := by decide
    have limit : OrderType.limit ≠ .market := by decide
    rw [Engine.invalid, asNew, if_neg quantity, if_neg both, if_pos limit, aligned,
      if_neg (by decide), if_neg inBand]

theorem memSnapshotIds (sim : Sim engine venue) (id : OrderId) :
    id ∈ (snapshot engine).map (·.2.orderId) ↔ ∃ b side, ∃ o ∈ venue.orders b side, o.id = id := by
  constructor
  · intro listed
    obtain ⟨entry, member, rfl⟩ := List.mem_map.mp listed
    obtain ⟨b, inside, side, quoted⟩ := memSnapshot.mp member
    obtain ⟨o, queued, rfl⟩ := memQuotes.mp quoted
    rw [queuedOrdersEqVenue sim inside] at queued
    exact ⟨b, side, o, queued, rfl⟩
  · rintro ⟨b, side, o, queued, rfl⟩
    have inside := restsInside sim queued
    rw [← queuedOrdersEqVenue sim inside] at queued
    exact List.mem_map.mpr
      ⟨_, memSnapshot.mpr ⟨b, inside, side, memQuotes.mpr ⟨o, queued, rfl⟩⟩, rfl⟩

theorem snapshotDistinct (sim : Sim engine venue) :
    ((snapshot engine).map (·.2.orderId)).Nodup := by
  have proper := simProper sim
  have ids : ∀ b < engine.books.size,
      (quotes engine b .buy ++ quotes engine b .sell).map (·.2.orderId) =
      (venue.orders b .buy).map (·.id) ++ (venue.orders b .sell).map (·.id) := by
    intro b inside
    rw [quotes, quotes, queuedOrdersEqVenue sim inside, queuedOrdersEqVenue sim inside,
      List.map_append, List.map_map, List.map_map]
    rfl
  have apart : ∀ b c side s, ¬(b = c ∧ side = s) → ∀ id ∈ (venue.orders b side).map (·.id),
      id ∉ (venue.orders c s).map (·.id) := by
    intro b c side s other id here there
    obtain ⟨o, queued, rfl⟩ := List.mem_map.mp here
    obtain ⟨o', queued', same⟩ := List.mem_map.mp there
    exact other (proper.once b c side s o queued o' queued' same.symm)
  rw [snapshot, List.map_flatMap, List.nodup_flatMap]
  have place : ∀ b ∈ List.range engine.books.size,
      ∀ id ∈ (quotes engine b .buy ++ quotes engine b .sell).map (·.2.orderId), ∃ side,
      id ∈ (venue.orders b side).map (·.id) := by
    intro b listed id member
    rw [ids b (List.mem_range.mp listed)] at member
    exact (List.mem_append.mp member).elim (fun buys => ⟨_, buys⟩) (fun sells => ⟨_, sells⟩)
  refine ⟨fun b listed => ?_, ?_⟩
  · rw [ids b (List.mem_range.mp listed)]
    exact List.Nodup.append (proper.nodup b .buy) (proper.nodup b .sell) (fun id buys sells =>
      apart b b .buy .sell (fun both => nomatch both.2) id buys sells)
  · refine List.Nodup.pairwise_of_forall_ne List.nodup_range
      (fun b listedB c listedC other id here there => ?_)
    obtain ⟨side, here⟩ := place b listedB id here
    obtain ⟨s, there⟩ := place c listedC id there
    exact apart b c side s (fun both => other both.1) id here there

theorem snapshotEnterable {instruments : List InstrumentConfig}
    (installed : Installed {} instruments start) (grown : Grown start engine)
    (simStart : Sim start base) (sim : Sim engine venue) : Enterable base (snapshot engine) := by
  refine ⟨fun entry member => ?_, snapshotDistinct sim⟩
  obtain ⟨b, inside, side, quoted⟩ := memSnapshot.mp member
  obtain ⟨o, queued, rfl⟩ := memQuotes.mp quoted
  rw [queuedOrdersEqVenue sim inside] at queued
  exact ⟨rfl, validFresh simStart (quoteValid installed grown simStart sim queued)⟩

theorem snapshotPassive (sim : Sim engine venue) (uncrossed : venue.Uncrossed)
    (blank : ∀ b side, base.orders b side = []) : PassiveAll (snapshot engine) base := by
  refine passiveAll _ base (fun entry _ o member => ?_)
    (fun entry member other member' same opposite => ?_)
  · rw [blank] at member
    contradiction
  · obtain ⟨b, inside, side, quoted⟩ := memSnapshot.mp member
    obtain ⟨c, inside', s, quoted'⟩ := memSnapshot.mp member'
    obtain ⟨o, queued, rfl⟩ := memQuotes.mp quoted
    obtain ⟨o', queued', rfl⟩ := memQuotes.mp quoted'
    cases same
    have sides : side = s.opposite := opposite
    rw [queuedOrdersEqVenue sim inside] at queued queued'
    subst sides
    exact uncrossedIff.mp uncrossed b s o' queued' o queued

theorem snapshotQueues (enterable : Enterable base (snapshot engine))
    (blank : ∀ b side, base.orders b side = []) (sim : Sim engine venue)
    (inside : b < engine.books.size) (side : Side) :
    (restAll (snapshot engine) base).orders b side = (venue.orders b side).map Order.renewed := by
  have empty : Sorted side (base.orders b side) := by
    rw [blank]
    exact List.Pairwise.nil
  have sorted : Sorted side ((venue.orders b side).map Order.renewed) :=
    List.pairwise_map.mpr ((simProper sim).sorted b side)
  rw [restAllSorts empty (fun entry member => ?_), blank, List.nil_append,
    arrivingSnapshot sim inside, queuedOrdersEqVenue sim inside]
  · exact StableSort.arrangedSelf _ sorted
  · obtain ⟨_, _, fresh, _⟩ := enterable.each entry member
    exact (List.getElem?_eq_some_iff.mp fresh.here).1

theorem renewedSelf {orders : List Order} (unfilled : ∀ o ∈ orders, o.filledQty = 0) :
    orders.map Order.renewed = orders := by
  refine (List.map_congr_left (fun o member => ?_)).trans (List.map_id _)
  rw [Order.renewed, ← unfilled o member]
  rfl

theorem snapshotTwin (simStart : Sim start base) (sim : Sim engine venue)
    (grown : Grown start engine) (enterable : Enterable base (snapshot engine))
    (blank : ∀ b side, base.orders b side = []) (fresh : base.spent = [])
    (unfilled : ∀ b side, ∀ o ∈ venue.orders b side, o.filledQty = 0) :
    Twin (fun _ => 0) (fun _ => True) (fun id => id ∈ venue.spent → ∃ b side,
      ∃ o ∈ venue.orders b side, o.id = id)
      (restAll (snapshot engine) base) venue := by
  obtain ⟨frames, configured, spent⟩ := restAllFrames (snapshot engine) base
  have bands : ∀ b < start.books.size, (start.books.read b).bandLo = (engine.books.read b).bandLo ∧
      (start.books.read b).bandHi = (engine.books.read b).bandHi := by
    intro b _
    rw [bandLo, bandLo, bandHi, bandHi, (grown.frame b).ladder]
    exact ⟨rfl, rfl⟩
  have alike :=
    framesAlike simStart sim grown.books.symm (fun b _ => (grown.frame b).instrumentId.symm) bands
  refine ⟨?_, frames.trans alike, fun b _ side => ?_, fun id known => ?_, fun _ => rfl⟩
  · obtain ⟨_, _, _, viewStart⟩ := simStart
    obtain ⟨_, _, _, view⟩ := sim
    rw [configured, viewStart.configured, view.configured, grown.configured]
  · by_cases inside : b < engine.books.size
    · rw [snapshotQueues enterable blank sim inside, renewedSelf (unfilled b side)]
    · have length : (restAll (snapshot engine) base).books.length = venue.books.length := by
        have same := congrArg List.length (frames.trans alike)
        rwa [List.length_map, List.length_map] at same
      obtain ⟨_, _, _, view⟩ := sim
      have past : venue.books.length ≤ b := by
        rw [view.books, List.length_map, List.length_range]
        exact Nat.not_lt.mp inside
      rw [ordersBeyond view (Nat.not_lt.mp inside), Venue.orders,
        List.getElem?_eq_none (by rw [length]; exact past)]
      rfl
  · rw [spent, memSnapshotIds sim, fresh]
    constructor
    · rintro (⟨b, side, o, queued, rfl⟩ | impossible)
      · exact (simProper sim).known b side o queued
      · contradiction
    · exact fun used => .inl (known used)

end Snapshots

/- The engine `start`, sent all that rests in `engine`, has it in the same order, each order as one
that has filled nothing. If that is so in `engine` too, the two answer alike from then on, but for
trade ids, and but for ids that are used up there. -/
structure Restored (start engine : Engine) : Prop where
  accepted : eventsOf (submits (snapshot engine)) start =
    (snapshot engine).map (fun entry => .accepted entry.2.orderId)
  queues : ∀ b < engine.books.size, ∀ side,
    queuedOrders (session (submits (snapshot engine)) start) b side =
    (queuedOrders engine b side).map Order.renewed
  later : (∀ b < engine.books.size, ∀ side, ∀ o ∈ queuedOrders engine b side, o.filledQty = 0) →
    ∀ requests : List Request,
    (∀ request ∈ requests, ∀ id, engine.orderIndex.contains id = true → engine.findOpen id = none →
      ¬(Action.call .calm request).Introduces id) →
    Roomy (session requests engine) →
    Roomy (session requests (session (submits (snapshot engine)) start)) →
    (eventsOf requests (session (submits (snapshot engine)) start)).map (·.renumber (fun _ => 0)) =
      (eventsOf requests engine).map (·.renumber (fun _ => 0))

theorem snapshotRestores (trouble : Nat → Option Failure) (instruments : List InstrumentConfig)
    (start : Engine)
    (accepted : ({} : Engine).configure trouble (some instruments) = some (.ok, start))
    (actions : List Action) (roomy : Roomy (actions.foldl act start))
    (roomy' : Roomy (session (submits (snapshot (actions.foldl act start))) start)) :
    Restored start (actions.foldl act start) := by
  obtain ⟨installed, grown, venue, sim, uncrossed⟩ := configuredReach keptUncrossed accepted roomy
  have simStart := openedSim installed rfl (roomyBefore grown roomy).levels
  generalize actions.foldl act start = engine at *
  have grown' := callsGrown (submits (snapshot engine)) start
  obtain ⟨simNew, events⟩ :=
    sessionRests (snapshot engine) start _ simStart (snapshotEnterable installed grown simStart sim)
    (snapshotPassive sim uncrossed (openedOrders instruments)) roomy'
  have inside' : ∀ b < engine.books.size,
      b < (session (submits (snapshot engine)) start).books.size := fun b inside => by
    rw [grown'.books, ← grown.books]
    exact inside
  have enterable := snapshotEnterable installed grown simStart sim
  refine ⟨events, fun b inside side => ?_, fun unfilled requests own roomyOld roomyNew => ?_⟩
  · rw [queuedOrdersEqVenue simNew (inside' b inside), queuedOrdersEqVenue sim inside]
    exact snapshotQueues enterable (openedOrders instruments) sim inside side
  · have none : ∀ b side, ∀ o ∈ venue.orders b side, o.filledQty = 0 := by
      intro b side o member
      have inside := restsInside sim member
      exact unfilled b inside side o (by rw [queuedOrdersEqVenue sim inside]; exact member)
    refine twinSessions requests _ _ _ _ simNew sim
      (snapshotTwin simStart sim grown enterable (openedOrders instruments) rfl none)
      (fun request member id foreign => ?_) roomyNew roomyOld
    obtain ⟨used, nowhere⟩ := Classical.not_imp.mp foreign
    refine own request member id ?_
      (notOpen sim (fun c s o queued same => nowhere ⟨c, s, o, queued, same⟩))
    obtain ⟨_, _, _, view⟩ := sim
    exact (containsSpent view id).mpr used

theorem twoRestored :
    Restored (after (calmRun [⟨7, 100000, 1000⟩] []))
      (List.foldl act (after (calmRun [⟨7, 100000, 1000⟩] []))
        [.call .calm (.submit ⟨1, 7, .sell, .limit, .day, 100000, 5⟩),
          .call .calm (.submit ⟨2, 7, .sell, .limit, .day, 100100, 3⟩),
          .call .calm (.submit ⟨3, 7, .buy, .limit, .day, 100000, 5⟩),
            .call .calm (.submit ⟨4, 7, .buy, .limit, .day, 99900, 4⟩)]) :=
  snapshotRestores (fun _ => none) [⟨7, 100000, 1000⟩] _ (configuredStart (by decide +kernel)) _
    (roomyOf (by decide +kernel) (by decide +kernel))
    (roomyOf (by decide +kernel) (by decide +kernel))

end Engine
end Xmatch
