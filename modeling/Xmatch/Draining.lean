import Xmatch.Symmetry
import Xmatch.Throwing

/-! A book on which nothing rests is as it was configured, and it gets there by canceling. -/
namespace Xmatch

namespace OrderBook

/- The same contents wherever there is storage. -/
structure SameContents (one two : OrderBook) : Prop where
  instrumentId : two.instrumentId = one.instrumentId
  ladder : two.ladder = one.ladder
  sizes : ∀ side, (two.levels side).size = (one.levels side).size ∧
    (two.bitmap side).words.size = (one.bitmap side).words.size
  levels : ∀ side, ∀ i < (one.levels side).size, (two.levels side).read i = (one.levels side).read i
  words : ∀ side, ∀ i < (one.bitmap side).words.size, (two.bitmap side).words.read i =
    (one.bitmap side).words.read i
  best : ∀ side, two.bestIndex side = one.bestIndex side

section Empty
variable {pool : OrderPool} {book : OrderBook} {queues : Queues} {side : Side}
  {cfg : InstrumentConfig} {one two : OrderBook}

theorem emptyLevel (shape : Shape pool book queues) {level : Nat} (inside : level < book.levelCount)
    (empty : queues side level = []) : (book.levels side).read level = {} := by
  have ends := shape.queue side level inside
  have count := shape.count side level inside
  have total := shape.total side level inside
  rw [empty] at ends count total
  have head : (book.levelAt side (UInt32.ofNat level)).head = kInvalidSlot := ends.head
  have tail : (book.levelAt side (UInt32.ofNat level)).tail = kInvalidSlot := ends.tail
  rw [levelAt, levelNarrow inside] at head tail count total
  cases here : (book.levels side).read level with
  | mk first last quantity orders =>
    rw [here] at head tail count total
    simp only at head tail count total
    rw [head, tail, count, total]
    rfl

theorem emptyWord (shape : Shape pool book queues) (empty : ∀ level, queues side level = [])
    (i : Nat) : (book.bitmap side).words.read i = 0 := by
  refine (WordBits.zeroIff _).mpr (fun j low => ?_)
  have clear : (book.bitmap side).has (i * 64 + j) = false :=
    Bool.eq_false_iff.mpr (fun bit => (shape.bits side _).mp bit (empty _))
  rwa [LevelBitset.has, show (i * 64 + j) / 64 = i by omega,
    show (i * 64 + j) % 64 = j by omega] at clear

theorem emptyBest (shape : Shape pool book queues) (empty : ∀ level, queues side level = []) :
    book.bestIndex side = -1 := by
  rcases Int.lt_or_le (book.bestIndex side) 0 with none | some
  · exact ((shape.best side).none none).1
  · obtain ⟨level, index⟩ := Int.eq_ofNat_of_zero_le some
    exact absurd (empty level) ((shape.best side).some level index).1

theorem emptySame (blank : Blank cfg one) (frame : SameFrame one two)
    (shape : Shape pool two queues) (empty : ∀ side level, queues side level = []) :
    SameContents one two where
  instrumentId := frame.instrumentId
  ladder := frame.ladder
  sizes side := ⟨frame.levels side, frame.words side⟩
  levels side i inside := by
    rw [blank.levels] at inside
    have within : i < two.levelCount := by
      rw [levelCount, frame.ladder]
      exact inside
    rw [emptyLevel shape within (empty side i), blank.levels]
    rfl
  words side i inside := by
    rw [emptyWord shape (empty side), blank.bitmap]
    rfl
  best side := by rw [emptyBest shape (empty side), blank.best]

end Empty
end OrderBook

namespace Venue

section Canceling
variable {venue : Venue} {b : Nat} {side : Side} {order : Order}

theorem cancelRests (proper : venue.Proper) (configured : venue.configured = true)
    (member : order ∈ venue.orders b side) :
    cancel ⟨order.id⟩ venue = cancelOrder b side order venue := by
  have found : venue.findOpen order.id = some (b, side, order) :=
    (findOpenIff proper).mpr ⟨member, rfl⟩
  unfold cancel
  simp only [configured, found, Bool.not_true, Bool.false_eq_true, if_false]

theorem cancelOrders (proper : venue.Proper) (member : order ∈ venue.orders b side) (c : Nat)
    (s : Side) :
    ((cancelOrder b side order venue).2).orders c s = without order.id (venue.orders c s) := by
  have inside := ordersInside member
  rw [cancelOrder, withdraw, ordersPutSide]
  split
  · rename_i here
    rw [here.1, here.2.1]
  · rename_i elsewhere
    refine (List.filter_eq_self.mpr (fun o inSide => ?_)).symm
    rw [decide_eq_true_eq]
    intro same
    obtain ⟨rfl, rfl⟩ := proper.once c b s side o inSide order member same
    exact elsewhere ⟨rfl, rfl, inside⟩

end Canceling
end Venue

namespace Engine
open OrderBook

theorem configuredReach {I : Venue → Prop} (kept : Kept I) {trouble : Nat → Option Failure}
    {instruments : List InstrumentConfig} {start : Engine}
    (accepted : ({} : Engine).configure trouble (some instruments) = some (.ok, start))
    {later : List Action} (roomy : Roomy (later.foldl act start)) :
    Installed {} instruments start ∧ Grown start (later.foldl act start) ∧
      ∃ venue, Sim (later.foldl act start) venue ∧ I venue := by
  obtain ⟨list, same, installed⟩ := configureInstalls accepted
  cases Option.some.inj same
  have whole : after (.configure trouble (some instruments) :: later) = later.foldl act start := by
    rw [after, List.foldl_cons, act, accepted]
  have reach := reached kept (.configure trouble (some instruments) :: later)
      (by rw [whole]; exact roomy)
  rw [whole] at reach
  exact ⟨installed, actsGrown start installed.configured later, reach⟩

theorem emptyAsConfigured {instruments : List InstrumentConfig} {start engine : Engine}
    {venue : Venue} {b : Nat} (installed : Installed {} instruments start)
    (grown : Grown start engine) (sim : Sim engine venue) (inside : b < start.books.size)
    (empty : ∀ side, venue.orders b side = []) :
    SameContents (start.books.read b) (engine.books.read b) := by
  have inside' : b < engine.books.size := by rw [grown.books]; exact inside
  obtain ⟨queues, rep, _, view⟩ := sim
  obtain ⟨cfg, blank⟩ : ∃ cfg, Blank cfg (start.books.read b) := by
    rw [installed.size] at inside
    exact ⟨_, (installed.listed.built b _ (List.getElem?_eq_getElem inside)).2⟩
  refine emptySame blank (grown.frame b) (rep.shape b inside') (fun side level => ?_)
  refine List.eq_nil_iff_forall_not_mem.mpr (fun slot queued => ?_)
  have member : viewOrder engine.pool slot ∈ venue.orders b side := by
    rw [ordersAt view inside']
    exact (viewMember rep inside').mpr ⟨level, slot, queued, rfl⟩
  rw [empty] at member
  contradiction

theorem drainedAsConfigured (trouble : Nat → Option Failure) (instruments : List InstrumentConfig)
    (start : Engine)
    (accepted : ({} : Engine).configure trouble (some instruments) = some (.ok, start))
    (later : List Action) (roomy : Roomy (later.foldl act start)) (b : Nat)
    (inside : b < start.books.size)
    (empty : ∀ side, queuedOrders (later.foldl act start) b side = []) :
    SameContents (start.books.read b) ((later.foldl act start).books.read b) := by
  obtain ⟨installed, grown, venue, sim, -⟩ := configuredReach keptTrivial accepted roomy
  refine emptyAsConfigured installed grown sim inside (fun side => ?_)
  rw [← queuedOrdersEqVenue sim (by rw [grown.books]; exact inside), empty]

theorem tradedOutAsConfigured :
    SameContents ((after (calmRun [⟨7, 100000, 1000⟩] [])).books.read 0)
      ((List.foldl act (after (calmRun [⟨7, 100000, 1000⟩] []))
        [.call .calm (.submit ⟨1, 7, .sell, .limit, .day, 100000, 5⟩),
          .call (throwsAt 0) (.submit ⟨2, 7, .sell, .limit, .day, 100100, 4⟩),
          .call .calm (.submit ⟨3, 7, .buy, .market, .ioc, 0, 8⟩)]).books.read 0) :=
  drainedAsConfigured (fun _ => none) [⟨7, 100000, 1000⟩] _ (configuredStart (by decide +kernel)) _
    (roomyOf (by decide +kernel) (by decide +kernel)) 0 (by decide +kernel) (by decide +kernel)

def cancels (orders : List Order) : List Request := orders.map (fun o => .cancel ⟨o.id⟩)

section Cancels
variable {engine : Engine} {venue : Venue} {b : Nat} {side : Side} {order : Order}

theorem cancelsDrain (orders : List Order) : ∀ (engine : Engine) (venue : Venue), Sim engine venue →
    engine.configured = true →
    (orders.map (·.id)).Nodup → (∀ o ∈ orders, ∃ b side, o ∈ venue.orders b side) →
    Roomy (session (cancels orders) engine) →
    (transcript (cancels orders) engine).map Prod.fst =
      orders.map (fun o => [.canceled o.id o.openQty .userRequested]) ∧
      ∃ venue', Sim (session (cancels orders) engine) venue' ∧
        ∀ c s, venue'.orders c s =
          (venue.orders c s).filter (fun o => o.id ∉ orders.map (·.id)) := by
  induction orders with
  | nil =>
    intro engine venue sim _ _ _ _
    exact ⟨rfl, venue, sim, fun c s => (List.filter_eq_self.mpr (fun o _ => by simp)).symm⟩
  | cons first rest ih =>
    intro engine venue sim configured nodup rests roomy
    have room := (roomyBefore (callsGrown (cancels (first :: rest)) engine) roomy).slots
    obtain ⟨b, side, member⟩ := rests first List.mem_cons_self
    obtain ⟨apart, nodup'⟩ := List.nodup_cons.mp nodup
    have canceled : Venue.perform wrappedFill (.cancel ⟨first.id⟩) venue =
        Venue.cancelOrder b side first venue :=
      Venue.cancelRests (simProper sim) ((simConfigured sim).trans configured) member
    obtain ⟨_, sim'⟩ := calmCall sim room (.cancel ⟨first.id⟩)
    have events := calmEvents sim room (.cancel ⟨first.id⟩)
    rw [canceled] at sim' events
    have orders := Venue.cancelOrders (simProper sim) member
    have still : ∀ o ∈ rest, ∃ c s, o ∈ ((Venue.cancelOrder b side first venue).2).orders c s := by
      intro o inRest
      obtain ⟨c, s, queued⟩ := rests o (List.mem_cons_of_mem _ inRest)
      refine ⟨c, s, ?_⟩
      rw [orders]
      exact Venue.memWithout.mpr ⟨queued, fun same => apart (List.mem_map.mpr ⟨o, inRest, same⟩)⟩
    obtain ⟨reported, venue', simLast, left⟩ :=
      ih _ _ sim' ((callGrown .calm _ engine).configured.trans configured) nodup' still roomy
    refine ⟨?_, venue', simLast, fun c s => ?_⟩
    · rw [cancels, List.map_cons, transcript, List.map_cons, events, List.map_cons]
      exact congrArg _ reported
    · rw [left, orders, without, List.filter_filter]
      refine List.filter_congr (fun o _ => ?_)
      simp only [List.map_cons, List.mem_cons, not_or, ne_eq, Bool.decide_and, Bool.and_comm]

structure Emptied (start engine : Engine) (b : Nat) (orders : List Order) : Prop where
  reported : (transcript (cancels orders) engine).map Prod.fst =
    orders.map (fun o => [.canceled o.id o.openQty .userRequested])
  blank : SameContents (start.books.read b) ((session (cancels orders) engine).books.read b)
  others : ∀ c < start.books.size, c ≠ b → ∀ side,
    queuedOrders (session (cancels orders) engine) c side = queuedOrders engine c side

theorem drainedOrders {orders : List Order} (proper : venue.Proper)
    (all : orders.Perm (venue.orders b .buy ++ venue.orders b .sell)) :
    (orders.map (·.id)).Nodup ∧ (∀ o ∈ orders, ∃ b side, o ∈ venue.orders b side) ∧
      (∀ side, (venue.orders b side).filter (fun o => o.id ∉ orders.map (·.id)) = []) ∧
      ∀ c ≠ b, ∀ side, (venue.orders c side).filter (fun o => o.id ∉ orders.map (·.id)) =
        venue.orders c side := by
  have among : ∀ o, o ∈ orders ↔ ∃ side, o ∈ venue.orders b side := by
    intro o
    rw [all.mem_iff, List.mem_append]
    exact ⟨fun h => h.elim (fun h => ⟨.buy, h⟩) (fun h => ⟨.sell, h⟩), fun ⟨side, h⟩ => by
      cases side
      · exact .inl h
      · exact .inr h⟩
  refine ⟨?_, fun o member => ⟨b, (among o).mp member⟩, fun side => ?_, fun c apart side => ?_⟩
  · rw [(all.map (·.id)).nodup_iff, List.map_append]
    refine List.Nodup.append (proper.nodup b .buy) (proper.nodup b .sell)
      (fun id inBids inAsks => ?_)
    obtain ⟨bid, isBid, rfl⟩ := List.mem_map.mp inBids
    obtain ⟨ask, isAsk, same⟩ := List.mem_map.mp inAsks
    exact absurd (proper.once b b .buy .sell bid isBid ask isAsk same.symm).2 (by decide)
  · refine List.filter_eq_nil_iff.mpr (fun o member => ?_)
    have listed := List.mem_map_of_mem (f := fun o : Order => o.id) ((among o).mpr ⟨side, member⟩)
    simpa using listed
  · refine List.filter_eq_self.mpr (fun o member => ?_)
    rw [decide_eq_true_eq]
    intro listed
    obtain ⟨o', inOrders, same⟩ := List.mem_map.mp listed
    obtain ⟨s, queued⟩ := (among o').mp inOrders
    exact apart (proper.once c b side s o member o' queued same.symm).1

end Cancels

theorem cancelingDrains (trouble : Nat → Option Failure) (instruments : List InstrumentConfig)
    (start : Engine)
    (accepted : ({} : Engine).configure trouble (some instruments) = some (.ok, start))
    (later : List Action) (b : Nat)
    (inside : b < start.books.size) (orders : List Order)
    (all : orders.Perm (queuedOrders (later.foldl act start) b .buy ++
      queuedOrders (later.foldl act start) b .sell))
    (roomy : Roomy (session (cancels orders) (later.foldl act start))) :
    Emptied start (later.foldl act start) b orders := by
  have grown' := callsGrown (cancels orders) (later.foldl act start)
  obtain ⟨installed, grown, venue, sim, -⟩ :=
    configuredReach keptTrivial accepted (roomyBefore grown' roomy)
  have within : ∀ c < start.books.size, c < (later.foldl act start).books.size := fun c below => by
    rw [grown.books]; exact below
  rw [queuedOrdersEqVenue sim (within b inside), queuedOrdersEqVenue sim (within b inside)] at all
  obtain ⟨nodup, rests, gone, kept⟩ := drainedOrders (simProper sim) all
  obtain ⟨reported, venue', sim', left⟩ :=
    cancelsDrain orders _ venue sim (grown.configured.trans installed.configured) nodup rests roomy
  have within' : ∀ c < start.books.size,
      c < (session (cancels orders) (later.foldl act start)).books.size :=
    fun c below => by rw [grown'.books]; exact within c below
  refine ⟨reported, ?_, fun c below apart side => ?_⟩
  · refine emptyAsConfigured installed (grownTrans grown grown') sim' inside (fun side => ?_)
    rw [left, gone]
  · rw [queuedOrdersEqVenue sim' (within' c below), queuedOrdersEqVenue sim (within c below),
      left, kept c apart]

theorem restOfSellDrains :
    Emptied (after (calmRun [⟨7, 100000, 1000⟩] []))
      (List.foldl act (after (calmRun [⟨7, 100000, 1000⟩] []))
        [.call .calm (.submit ⟨1, 7, .sell, .limit, .day, 100000, 5⟩),
          .call .calm (.submit ⟨2, 7, .buy, .limit, .day, 100000, 3⟩)])
      0 [⟨1, 100000, 2, 3⟩] :=
  cancelingDrains (fun _ => none) [⟨7, 100000, 1000⟩] _ (configuredStart (by decide +kernel)) _ 0
    (by decide +kernel) _
    (by decide +kernel) (roomyOf (by decide +kernel) (by decide +kernel))

end Engine
end Xmatch
