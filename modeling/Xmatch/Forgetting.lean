import Xmatch.Conservation
import Xmatch.HashMapRuns
import Xmatch.Symmetry
import Xmatch.Throwing

/-! What is left of the past: the open orders in their order, the ids used and the number of
trades. Slots, tables and closed records are not seen again. -/
namespace Xmatch

namespace Venue

section Untraded
variable {venue : Venue} {b : Nat} {side : Side} {order : NewOrder} {taker : Order}

theorem sweepUntraded {instrumentId : InstrumentId} {limit : Option Int} (orders : List Order)
    (venue : Venue) (taker : Order)
    (untraded : ∀ moment ∈ (sweep b instrumentId side limit orders venue taker).1,
      moment.event.isTrade = false) :
    sweep b instrumentId side limit orders venue taker = ([], ⟨venue, taker, orders⟩) := by
  cases orders with
  | nil => rfl
  | cons maker rest =>
    unfold sweep at untraded ⊢
    split
    · rename_i goesOn
      simp only [goesOn, and_self, if_true] at untraded
      split at untraded
      · have trade := untraded (tradeMoment instrumentId side maker venue taker) List.mem_cons_self
        contradiction
      · have trade := untraded (tradeMoment instrumentId side maker venue taker) List.mem_cons_self
        contradiction
    · rfl

theorem withoutEnqueued {orders : List Order} : (∀ o ∈ orders, o.id ≠ taker.id) →
    without taker.id (enqueue side taker orders) = orders := by
  induction orders with
  | nil => exact fun _ => by simp [enqueue, without]
  | cons first rest ih =>
    intro absent
    rw [enqueue]
    split
    · rw [without, List.filter_cons_of_neg (by simp)]
      exact List.filter_eq_self.mpr (fun o member => by simpa using absent o member)
    · have front : without taker.id (first :: enqueue side taker rest) =
          first :: without taker.id (enqueue side taker rest) :=
        List.filter_cons_of_pos (by simpa using absent first List.mem_cons_self)
      rw [front, ih (fun o member => absent o (List.mem_cons_of_mem _ member))]

abbrev TwinBut (id' : OrderId) (left right : Venue) : Prop :=
  Twin id (fun _ => True) (· ≠ id') left right

theorem spentTwin (venue : Venue) (used : OrderId) (filled : Nat) :
    TwinBut used (venue.spend used filled) venue :=
  ⟨rfl, rfl, fun _ _ _ => rfl, fun other apart => by simp [spend, apart], fun _ => rfl⟩

theorem cancelAbsent {request : CancelOrder}
    (absent : ∀ b side, ∀ o ∈ venue.orders b side, o.id ≠ request.orderId) :
    (cancel request venue).2 = venue := by
  unfold cancel
  split
  · rfl
  · cases found : venue.findOpen request.orderId with
    | none => rfl
    | some place =>
      obtain ⟨b, side, order⟩ := place
      obtain ⟨_, member, same⟩ := findOpenRests found
      exact absurd same (absent b side order member)

theorem restedCancels {base : Venue} (inside : b < base.books.length)
    (configured : base.configured = true) (absent : ∀ c s, ∀ o ∈ base.orders c s, o.id ≠ taker.id) :
    cancel ⟨taker.id⟩ (base.putSide b side (enqueue side taker (base.orders b side))) =
      cancelOrder b side taker (base.putSide b side (enqueue side taker (base.orders b side))) := by
  have rests : ∀ c s o, o ∈ (base.putSide b side (enqueue side taker (base.orders b side))).orders c
      s → o.id = taker.id →
      c = b ∧ s = side ∧ o = taker := by
    intro c s o member same
    rw [ordersPutSide] at member
    split at member
    · rename_i here
      refine ⟨here.1, here.2.1, ?_⟩
      rcases memEnqueue.mp member with taken | old
      · exact taken
      · exact absurd same (absent b side o old)
    · exact absurd same (absent c s o member)
  have found : (base.putSide b side (enqueue side taker (base.orders b side))).findOpen taker.id =
      some (b, side, taker) := by
    cases found : (base.putSide b side (enqueue side taker (base.orders b side))).findOpen
      taker.id with
    | none =>
      have queued : taker ∈ (base.putSide b side (enqueue side taker (base.orders b side))).orders b
          side := by
        rw [ordersPutSide, if_pos ⟨rfl, rfl, inside⟩]
        exact memEnqueue.mpr (.inl rfl)
      exact absurd rfl (findOpenMissing found b side taker queued)
    | some place =>
      obtain ⟨c, s, o⟩ := place
      obtain ⟨_, member, same⟩ := findOpenRests found
      obtain ⟨rfl, rfl, rfl⟩ := rests c s o member same
      rfl
  unfold cancel
  have still : (base.putSide b side (enqueue side taker (base.orders b side))).configured =
      true := configured
  simp only [still, found, Bool.not_true, Bool.false_eq_true, if_false]

theorem restedTwin {base : Venue} {mine : OrderId → Prop}
    (twin : Twin id (fun _ => True) mine base venue) (inside : b < base.books.length)
    (configured : base.configured = true) (absent : ∀ c s, ∀ o ∈ base.orders c s, o.id ≠ taker.id) :
    Twin id (fun _ => True) mine
      (cancel ⟨taker.id⟩ (base.putSide b side (enqueue side taker (base.orders b side)))).2
        venue := by
  have length : (base.putSide b side (enqueue side taker (base.orders b side))).books.length =
      base.books.length := List.length_modify ..
  rw [restedCancels inside configured absent, cancelOrder, withdraw]
  refine ⟨twin.configured, ?_, fun c _ s => ?_, twin.spent, twin.trades⟩
  · rw [framesPut, framesPut, twin.frames]
  · rw [ordersPutSide, length]
    split
    · rename_i here
      rw [ordersPutSide, if_pos ⟨rfl, rfl, inside⟩, withoutEnqueued (absent b side), here.1,
        here.2.1, twin.orders b trivial side]
    · rename_i elsewhere
      rw [ordersPutSide, if_neg elsewhere, twin.orders c trivial s]

theorem untradedTwin (proper : venue.Proper) (unused : order.orderId ∉ venue.spent)
    (untraded : ∀ moment ∈ (perform wrappedFill (.submit order) venue).1,
      moment.event.isTrade = false) :
    TwinBut order.orderId (cancel ⟨order.orderId⟩ (perform wrappedFill (.submit order) venue).2).2
      venue := by
  have absent : ∀ b side, ∀ o ∈ venue.orders b side, o.id ≠ order.orderId :=
    fun b side o member same => unused (same ▸ proper.known b side o member)
  have spoiled : TwinBut order.orderId
      (cancel ⟨order.orderId⟩ (venue.spend order.orderId 0)).2 venue := by
    have same : (cancel ⟨order.orderId⟩ (venue.spend order.orderId 0)).2 =
        venue.spend order.orderId 0 := cancelAbsent absent
    rw [same]
    exact spentTwin venue _ _
  have shape := performed wrappedFill (.submit order) venue
  generalize perform wrappedFill (.submit order) venue = result at shape untraded ⊢
  cases shape with
  | refused request id' reason =>
    have same : (cancel ⟨order.orderId⟩ (reject id' reason venue).2).2 = venue :=
      cancelAbsent absent
    rw [same]
    exact twinRefl venue
  | spoiled order b book reason fresh flaw => exact spoiled
  | killed order b book fresh valid fok short => exact spoiled
  | worked order b book fresh valid enough =>
    have swept : work b order (venue.spend order.orderId 0) =
        ([], ⟨venue.spend order.orderId 0, takerOf order,
          (venue.spend order.orderId 0).orders b order.side.opposite⟩) := by
      refine sweepUntraded _ _ _ (fun moment member => untraded moment (List.mem_cons_of_mem _ ?_))
      rw [disposeSplit]
      exact List.mem_append_left _ member
    by_cases day : order.tif = .day
    · rw [swept, disposeSettles _ day, settle]
      simp only
      split
      · exact @restedTwin venue b order.side (takerOf order) _ _ (spentTwin venue order.orderId 0)
          (List.findIdx?_eq_some_iff_getElem.mp fresh.index).1 fresh.configured absent
      · exact spoiled
    · rw [swept, disposeDrops _ day]
      exact spoiled
  | withdrawn _ _ _ _ _ _ leaves => cases leaves

end Untraded
end Venue

namespace Engine
open OrderBook

/- The engines differ in slots, tables and closed records at most. -/
structure SameState (one two : Engine) : Prop where
  configured : one.configured = two.configured
  size : one.books.size = two.books.size
  names : ∀ b < one.books.size, (one.books.read b).instrumentId = (two.books.read b).instrumentId
  bands : ∀ b < one.books.size, (one.books.read b).bandLo = (two.books.read b).bandLo ∧
    (one.books.read b).bandHi = (two.books.read b).bandHi
  queues : ∀ b < one.books.size, ∀ side, queuedOrders one b side = queuedOrders two b side
  spent : ∀ id, one.orderIndex.contains id = two.orderIndex.contains id
  trades : one.nextTradeId = two.nextTradeId

section Forgetting
variable {one two : Engine} {left right : Venue}

theorem framesAlike (simOne : Sim one left) (simTwo : Sim two right)
    (size : one.books.size = two.books.size)
    (names : ∀ b < one.books.size, (one.books.read b).instrumentId =
      (two.books.read b).instrumentId)
    (bands : ∀ b < one.books.size, (one.books.read b).bandLo = (two.books.read b).bandLo ∧
      (one.books.read b).bandHi = (two.books.read b).bandHi) : left.books.map Book.frame =
    right.books.map Book.frame := by
  obtain ⟨_, _, _, viewOne⟩ := simOne
  obtain ⟨_, _, _, viewTwo⟩ := simTwo
  rw [viewOne.books, viewTwo.books, List.map_map, List.map_map, ← size]
  refine List.map_congr_left (fun b listed => ?_)
  have inside := List.mem_range.mp listed
  exact Prod.ext (names b inside) (Prod.ext (bands b inside).1 (bands b inside).2)

theorem sameTwin (simOne : Sim one left) (simTwo : Sim two right) (same : SameState one two) :
    Venue.Twin id (fun _ => True) (fun _ => True) left right := by
  have queues : ∀ b < one.books.size, ∀ side, left.orders b side = right.orders b side := by
    intro b inside side
    rw [← queuedOrdersEqVenue simOne inside, ← queuedOrdersEqVenue simTwo (same.size ▸ inside),
      same.queues b inside]
  have frames := framesAlike simOne simTwo same.size same.names same.bands
  obtain ⟨queuesOne, repOne, _, viewOne⟩ := simOne
  obtain ⟨queuesTwo, repTwo, _, viewTwo⟩ := simTwo
  refine ⟨?_, frames, fun b _ side => ?_, fun id _ => ?_, fun k => ?_⟩
  · rw [viewOne.configured, viewTwo.configured, same.configured]
  · by_cases inside : b < one.books.size
    · exact queues b inside side
    · rw [ordersBeyond viewOne (Nat.not_lt.mp inside),
        ordersBeyond viewTwo (by rw [← same.size]; exact Nat.not_lt.mp inside)]
  · rw [← containsSpent viewOne, ← containsSpent viewTwo, same.spent]
  · have number : left.nextTradeId = right.nextTradeId := by
      rw [← viewOne.tradeId, ← viewTwo.tradeId, same.trades]
    rw [number]

theorem spentAmong (sim : Sim one left)
    (all : (slotsUsed one).all (fun slot => two.orderIndex.contains (one.pool.get slot).id) = true)
    (id : OrderId) (spent : one.orderIndex.contains id = true) :
    two.orderIndex.contains id = true := by
  obtain ⟨_, rep, _, _⟩ := sim
  obtain ⟨slot, found⟩ := Option.isSome_iff_exists.mp spent
  obtain ⟨inside, rfl⟩ := rep.found id slot found
  exact List.all_eq_true.mp all slot ((memSlotsUsed rep.narrow).mpr inside)

end Forgetting

theorem pastIsForgotten (earlier earlier' later : List Action)
    (configured : (after earlier).configured = true)
    (same : SameState (after earlier) (after earlier')) (calm : ∀ action ∈ later, action.Calm)
    (roomy : Roomy (after (earlier ++ later))) (roomy' : Roomy (after (earlier' ++ later))) :
    answers later (after earlier) = answers later (after earlier') := by
  obtain ⟨left, simOne, _⟩ := calmStart roomy
  obtain ⟨right, simTwo, _⟩ := calmStart roomy'
  rw [after, List.foldl_append] at roomy roomy'
  exact mirrorAnswers later _ _ ⟨left, right, simOne, simTwo, sameTwin simOne simTwo same⟩
    configured calm
    (fun _ _ _ foreign => absurd trivial foreign) roomy roomy'

theorem spentAlike {actions actions' : List Action} (roomy : Roomy (after actions))
    (roomy' : Roomy (after actions'))
    (among : (slotsUsed (after actions)).all (fun slot => (after actions').orderIndex.contains
      ((after actions).pool.get slot).id) = true)
    (among' : (slotsUsed (after actions')).all (fun slot =>
      (after actions).orderIndex.contains ((after actions').pool.get slot).id) = true)
    (id : OrderId) : (after actions).orderIndex.contains id =
      (after actions').orderIndex.contains id := by
  obtain ⟨_, sim, _⟩ := reached keptTrivial actions roomy
  obtain ⟨_, sim', _⟩ := reached keptTrivial actions' roomy'
  exact Bool.eq_iff_iff.mpr ⟨spentAmong sim among id, spentAmong sim' among' id⟩

theorem canceledEitherWay :
    answers [.call .calm (.submit ⟨3, 7, .buy, .limit, .day, 100100, 9⟩)]
        (after (calmRun [⟨7, 100000, 1000⟩] [.submit ⟨1, 7, .sell, .limit, .day, 100000, 5⟩,
          .submit ⟨2, 7, .sell, .limit, .day, 100100, 3⟩,
          .cancel ⟨2⟩])) =
      answers [.call .calm (.submit ⟨3, 7, .buy, .limit, .day, 100100, 9⟩)]
        (after (calmRun [⟨7, 100000, 1000⟩]
          [.submit ⟨2, 7, .buy, .limit, .day, 99900, 8⟩, .cancel ⟨2⟩,
          .submit ⟨1, 7, .sell, .limit, .day, 100000, 5⟩])) :=
  pastIsForgotten _ _ _ (by decide +kernel)
    { configured := by decide +kernel
      size := by decide +kernel
      names := by decide +kernel
      bands := by decide +kernel
      queues := by decide +kernel
      spent := spentAlike (roomyOf (by decide +kernel) (by decide +kernel))
        (roomyOf (by decide +kernel) (by decide +kernel)) (by decide +kernel) (by decide +kernel)
      trades := by decide +kernel }
    (by simp [Action.Calm, Env.calm, Env.Quiet]) (roomyOf (by decide +kernel) (by decide +kernel))
    (roomyOf (by decide +kernel) (by decide +kernel))

/- A submit that trades nothing, and a cancel right after it: only the id is used up. -/
theorem untradedLeavesNoTrace (earlier later : List Action) (order : NewOrder)
    (unused : (after earlier).orderIndex.contains order.orderId = false)
    (untraded : ∀ event ∈ (call .calm (.submit order) (after earlier)).events,
      event.isTrade = false)
    (calm : ∀ action ∈ later, action.Calm)
    (own : ∀ action ∈ later, ¬action.Introduces order.orderId)
    (roomy : Roomy (after (earlier ++ .call .calm (.submit order) ::
      .call .calm (.cancel ⟨order.orderId⟩) :: later)))
    (shorter : Roomy (after (earlier ++ later))) :
    ((answers (earlier ++ .call .calm (.submit order) :: .call .calm (.cancel ⟨order.orderId⟩) ::
      later) {}).eraseIdx
      earlier.length).eraseIdx earlier.length = answers (earlier ++ later) {} := by
  obtain ⟨venue, sim, room⟩ := calmStart shorter
  obtain ⟨_, sim'⟩ := calmCall sim room (.submit order)
  have events := calmEvents sim room (.submit order)
  have same : answers later
      (call .calm (.cancel ⟨order.orderId⟩)
        (call .calm (.submit order) (after earlier)).engine).engine =
      answers later (after earlier) := by
    cases configured : (after earlier).configured with
    | false => rw [idleCall configured, idleCall configured]
    | true =>
      have grown := grownTrans (callGrown .calm (.submit order) (after earlier))
          (callGrown .calm (.cancel ⟨order.orderId⟩) _)
      have still := grown.configured.trans configured
      rw [after, List.foldl_append, List.foldl_cons, List.foldl_cons] at roomy
      rw [after, List.foldl_append] at shorter
      have before := roomyBefore (actsGrown _ still later) roomy
      have room' := (roomyBefore (callGrown .calm (.cancel ⟨order.orderId⟩) _) before).slots
      obtain ⟨_, sim''⟩ := calmCall sim' room' (.cancel ⟨order.orderId⟩)
      have twin :=
        Venue.untradedTwin (simProper sim) (simUnused sim unused) (fun moment member => by
        refine untraded moment.event ?_
        rw [events]
        exact List.mem_map_of_mem member)
      refine mirrorAnswers later _ _ ⟨_, venue, sim'', sim, twin⟩ still calm
        (fun action member id foreign => ?_) roomy shorter
      rw [Classical.not_not.mp foreign]
      exact own action member
  rw [answersAppend, answersAppend, List.eraseIdx_append_of_length_le (by rw [answersLength]),
    answersLength, Nat.sub_self, answers, answers, List.eraseIdx_cons_zero,
    List.eraseIdx_append_of_length_le (by rw [answersLength]), answersLength, Nat.sub_self,
    List.eraseIdx_cons_zero]
  exact congrArg (answers earlier {} ++ ·) same

theorem canceledBuyLeavesNoTrace :
    ((answers (calmRun [⟨7, 100000, 1000⟩] [.submit ⟨1, 7, .sell, .limit, .day, 100000, 5⟩] ++
        .call .calm (.submit ⟨2, 7, .buy, .limit, .day, 99900, 3⟩) :: .call .calm (.cancel ⟨2⟩) ::
          [.call .calm (.submit ⟨3, 7, .buy, .limit, .day, 100000, 3⟩)]) {}).eraseIdx
    2).eraseIdx 2 =
      answers (calmRun [⟨7, 100000, 1000⟩] [.submit ⟨1, 7, .sell, .limit, .day, 100000, 5⟩] ++
        [.call .calm (.submit ⟨3, 7, .buy, .limit, .day, 100000, 3⟩)]) {} :=
  untradedLeavesNoTrace _ _ ⟨2, 7, .buy, .limit, .day, 99900, 3⟩ (by decide +kernel)
    (by decide +kernel)
    (by simp [Action.Calm, Env.calm, Env.Quiet]) (by simp [Action.Introduces])
    (roomyOf (by decide +kernel) (by decide +kernel))
    (roomyOf (by decide +kernel) (by decide +kernel))

def reindexed (engine : Engine) (orders instruments : FlatHashMap) : Engine :=
  { engine with orderIndex := orders, instrumentIndex := instruments }

theorem simReindexed {engine : Engine} {venue : Venue} (sim : Sim engine venue)
    {orders instruments : FlatHashMap} (valid : orders.Valid)
    (same : ∀ key, orders.find key = engine.orderIndex.find key)
    (same' : ∀ key, instruments.find key = engine.instrumentIndex.find key) :
    Sim (engine.reindexed orders instruments) venue := by
  obtain ⟨queues, rep, live, view⟩ := sim
  refine ⟨queues, ?_, live, ?_⟩
  · refine { rep with
      index := valid, named := fun id i found => ?_, filed := fun b inside => ?_,
      found := fun id slot found => ?_, indexed := fun b inside side level slot queued => ?_ }
    · exact rep.named id i ((same' id).symm.trans found)
    · exact (same' _).trans (rep.filed b inside)
    · exact rep.found id slot ((same id).symm.trans found)
    · exact (same _).trans (rep.indexed b inside side level slot queued)
  · refine { view with spent := fun id => ?_, traded := fun id slot found => ?_ }
    · exact (view.spent id).trans (exists_congr (fun slot => by rw [← same id]; exact Iff.rfl))
    · exact view.traded id slot ((same id).symm.trans found)

/- Whatever hashes the ids, and in whatever order and with whatever reserve they were entered. -/
theorem tablesDoNotMatter (mix mix' : UInt64 → UInt64) (earlier later : List Action)
    (ids names : List (UInt64 × UInt32)) (orders instruments : FlatHashMap)
    (run : FlatHashMap.Run mix ids orders) (run' : FlatHashMap.Run mix' names instruments)
    (same : ∀ key, ids.lookup key = (after earlier).orderIndex.find key)
    (same' : ∀ key, names.lookup key = (after earlier).instrumentIndex.find key)
    (configured : (after earlier).configured = true) (calm : ∀ action ∈ later, action.Calm)
    (roomy : Roomy (after (earlier ++ later)))
    (roomy' : Roomy (later.foldl act ((after earlier).reindexed orders instruments))) :
    answers later ((after earlier).reindexed orders instruments) =
      answers later (after earlier) := by
  obtain ⟨venue, sim, _⟩ := calmStart roomy
  have table := FlatHashMap.finiteMap run
  have table' := FlatHashMap.finiteMap run'
  have exchanged :=
    simReindexed sim (FlatHashMap.runHolding run).valid
      (fun key => (table.found key).trans (same key))
    (fun key => (table'.found key).trans (same' key))
  rw [after, List.foldl_append] at roomy
  exact mirrorAnswers later _ _ ⟨venue, venue, exchanged, sim, Venue.twinRefl venue⟩ configured calm
    (fun _ _ _ foreign => absurd trivial foreign) roomy' roomy

theorem lookupEqFind {map : FlatHashMap} {written : List (UInt64 × UInt32)} {keys : List UInt64}
    (among : ∀ key value, map.find key = some value → key ∈ keys)
    (same : (keys ++ written.map Prod.fst).all (fun key =>
      decide (written.lookup key = map.find key)) = true) (key : UInt64) :
    written.lookup key = map.find key := by
  have listed : key ∈ keys ++ written.map Prod.fst → written.lookup key = map.find key :=
    fun member => of_decide_eq_true (List.all_eq_true.mp same key member)
  cases found : map.find key with
  | some value => exact (listed (List.mem_append_left _ (among key value found))).trans found
  | none =>
    by_cases written' : key ∈ written.map Prod.fst
    · exact (listed (List.mem_append_right _ written')).trans found
    · exact FlatHashMap.lookupNone.mpr written'

theorem idsAmong {actions : List Action} (roomy : Roomy (after actions)) (key : UInt64)
    (slot : Slot) (found : (after actions).orderIndex.find key = some slot) :
    key ∈ (slotsUsed (after actions)).map (fun slot => ((after actions).pool.get slot).id) := by
  obtain ⟨_, ⟨_, rep, _, _⟩, _⟩ := reached keptTrivial actions roomy
  obtain ⟨inside, same⟩ := rep.found key slot found
  exact List.mem_map.mpr ⟨slot, (memSlotsUsed rep.narrow).mpr inside, same⟩

theorem namesAmong {actions : List Action} (roomy : Roomy (after actions)) (key : UInt64)
    (i : UInt32) (found : (after actions).instrumentIndex.find key = some i) :
    key ∈ (List.range (after actions).books.size).map (fun b =>
      ((after actions).books.read b).instrumentId.toUInt64) := by
  obtain ⟨_, ⟨_, rep, _, _⟩, _⟩ := reached keptTrivial actions roomy
  obtain ⟨inside, same⟩ := rep.named key i found
  exact List.mem_map.mpr ⟨i.toNat, List.mem_range.mpr inside, same⟩

theorem collidingTablesDoNotMatter :
    answers [.call .calm (.submit ⟨3, 7, .buy, .limit, .day, 100100, 9⟩), .call .calm (.cancel ⟨2⟩)]
        ((after (calmRun [⟨7, 100000, 1000⟩] [.submit ⟨1, 7, .sell, .limit, .day, 100000, 5⟩,
          .submit ⟨2, 7, .sell, .limit, .day, 100100, 6⟩])).reindexed
        (((FlatHashMap.emptyWith fun _ => 0).place 2 1).place 1 0)
            ((FlatHashMap.emptyWith fun key => key * key).place 7 0)) =
      answers [.call .calm (.submit ⟨3, 7, .buy, .limit, .day, 100100, 9⟩),
        .call .calm (.cancel ⟨2⟩)]
        (after (calmRun [⟨7, 100000, 1000⟩] [.submit ⟨1, 7, .sell, .limit, .day, 100000, 5⟩,
          .submit ⟨2, 7, .sell, .limit, .day, 100100, 6⟩])) :=
  have roomy : Roomy (after
    (calmRun [⟨7, 100000, 1000⟩] [.submit ⟨1, 7, .sell, .limit, .day, 100000, 5⟩,
      .submit ⟨2, 7, .sell, .limit, .day, 100100, 6⟩])) :=
        roomyOf (by decide +kernel) (by decide +kernel)
  tablesDoNotMatter (fun _ => 0) (fun key => key * key) _ _ [(1, 0), (2, 1)] [(7, 0)] _ _
    (.returned true (.insert 1 0)
      (.returned true (.insert 2 1) .start (by simp [FlatHashMap.Call.Allowed]) rfl)
      (by simp [FlatHashMap.Call.Allowed]) rfl)
    (.returned true (.insert 7 0) .start (by simp [FlatHashMap.Call.Allowed]) rfl)
    (lookupEqFind (idsAmong roomy) (by decide +kernel))
    (lookupEqFind (namesAmong roomy) (by decide +kernel)) (by decide +kernel)
    (by simp [Action.Calm, Env.calm, Env.Quiet]) (roomyOf (by decide +kernel) (by decide +kernel))
    (roomyOf (by decide +kernel) (by decide +kernel))

end Engine
end Xmatch
