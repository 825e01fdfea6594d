import Xmatch.Resting

/-! What `top_of_book` reports: the best price and the 32-bit total of its level, which is
the quantity resting at that price as long as that quantity fits 32 bits. -/
namespace Xmatch

def openAt (price : Int) (orders : List Order) : Nat :=
  quantityOf (orders.filter (fun o => o.price = price))

def foremost (side : Side) (orders : List Order) : List Order :=
  orders.filter (fun o => orders.all (fun p => !decide (side.better p.price o.price)))

structure TrueTop (side : Side) (orders : List Order) (price : Int) (quantity : Quantity) :
    Prop where
  empty : quantity = 0 ↔ orders = []
  taken : orders ≠ [] → ∃ o ∈ orders, o.price = price
  best : ∀ o ∈ orders, ¬side.better o.price price
  sum : orders ≠ [] → quantity.toNat = openAt price orders

section Tops
variable {side : Side} {orders orders' : List Order} {first : Order} {rest : List Order}
  {quantity : Quantity}

theorem openAtPerm (perm : orders.Perm orders') (price : Int) :
    openAt price orders = openAt price orders' :=
  quantityOfPerm (perm.filter _)

theorem foremostPerm (perm : orders.Perm orders') :
    quantityOf (foremost side orders) = quantityOf (foremost side orders') := by
  have same : ∀ o : Order, orders.all (fun p => !decide (side.better p.price o.price)) =
      orders'.all (fun p => !decide (side.better p.price o.price)) := by
    intro o
    rw [Bool.eq_iff_iff, List.all_eq_true, List.all_eq_true]
    exact ⟨fun h p member => h p (perm.symm.subset member),
      fun h p member => h p (perm.subset member)⟩
  simp only [foremost, same]
  exact quantityOfPerm (perm.filter _)

theorem trueTopPerm (perm : orders.Perm orders') {price : Int}
    (truth : TrueTop side orders price quantity) : TrueTop side orders' price quantity := by
  have nil : orders' = [] ↔ orders = [] := by
    constructor
    · rintro rfl
      exact perm.eq_nil
    · rintro rfl
      exact perm.symm.eq_nil
  refine ⟨truth.empty.trans nil.symm, fun some => ?_,
    fun o member => truth.best o (perm.symm.subset member), fun some => ?_⟩
  · obtain ⟨o, member, same⟩ := truth.taken (fun none => some (nil.mpr none))
    exact ⟨o, perm.subset member, same⟩
  · rw [← openAtPerm perm]
    exact truth.sum (fun none => some (nil.mpr none))

theorem foremostSorted (sorted : Sorted side (first :: rest)) :
    quantityOf (foremost side (first :: rest)) = openAt first.price (first :: rest) := by
  have behind : ∀ o ∈ first :: rest, ¬side.better o.price first.price := by
    intro o member
    rcases List.mem_cons.mp member with rfl | later
    · exact betterIrrefl side _
    · exact List.rel_of_pairwise_cons sorted later
  have same : foremost side (first :: rest) =
      (first :: rest).filter (fun o => o.price = first.price) := by
    refine List.filter_congr (fun o member => ?_)
    rw [Bool.eq_iff_iff, List.all_eq_true, decide_eq_true_eq]
    constructor
    · intro unbeaten
      have ahead := unbeaten first List.mem_cons_self
      have notAhead := behind o member
      simp only [Bool.not_eq_true', decide_eq_false_iff_not] at ahead
      cases side <;> simp only [Side.better] at ahead notAhead <;> omega
    · intro price p inside
      simpa only [price, Bool.not_eq_true', decide_eq_false_iff_not] using behind p inside
  rw [same]
  rfl

/- A top that is right but for a sum taken in 32 bits is right exactly when the sum fits. -/
theorem trueTopIff (sorted : Sorted side orders) (left : ∀ o ∈ orders, 0 < o.openQty)
    (sum : quantity = UInt32.ofNat (Book.top orders).2) :
    TrueTop side orders (Book.top orders).1 quantity ↔
    quantityOf (foremost side orders) < 2 ^ 32 := by
  cases orders with
  | nil =>
    refine iff_of_true ⟨?_, fun some => absurd rfl some,
      fun o member => by contradiction, fun some => absurd rfl some⟩ ?_
    · simp [sum, Book.top]
    · simp [foremost, quantityOf]
  | cons first rest =>
    have total : (Book.top (first :: rest)).2 = openAt first.price (first :: rest) := rfl
    rw [foremostSorted sorted]
    rw [total] at sum
    have positive : 0 < openAt first.price (first :: rest) := by
      have := left first List.mem_cons_self
      simp only [openAt, quantityOf, decide_true, List.filter_cons_of_pos, List.map_cons,
        List.sum_cons]
      omega
    constructor
    · intro truth
      have exact := truth.sum (List.cons_ne_nil _ _)
      change quantity.toNat = openAt first.price (first :: rest) at exact
      rw [← exact]
      exact UInt32.toNat_lt quantity
    · intro fits
      have exact : quantity.toNat = openAt first.price (first :: rest) := by
        rw [sum]
        exact WordBits.toNatOfNat fits
      refine ⟨⟨fun zero => ?_, fun none => by contradiction⟩,
        fun _ => ⟨first, List.mem_cons_self, rfl⟩, fun o member => ?_, fun _ => exact⟩
      · rw [zero] at exact
        change 0 = _ at exact
        omega
      · rcases List.mem_cons.mp member with rfl | later
        · exact betterIrrefl side _
        · exact List.rel_of_pairwise_cons sorted later

end Tops

namespace OrderBook

section Levels
variable {pool : OrderPool} {book : OrderBook} {queues : Queues} {side : Side} {level : Nat}

theorem viewLevel (fitted : Fitted book) (shape : Shape pool book queues)
    (inside : level < book.levelCount) (side : Side) :
    (viewSide pool book queues side).filter (fun o =>
      o.price = book.indexToPrice (UInt32.ofNat level)) =
      (queues side level).map (viewOrder pool) := by
  have own : ∀ l, (queues side l).filter (fun slot => (viewOrder pool slot).price =
    book.indexToPrice (UInt32.ofNat level)) =
      if l = level then queues side level else [] := by
    intro l
    split
    · rename_i same
      subst same
      exact List.filter_eq_self.mpr (fun slot member => by simpa using slotPrice shape member)
    · rename_i other
      refine List.filter_eq_nil_iff.mpr (fun slot member same => other ?_)
      rw [decide_eq_true_eq, slotPrice shape member] at same
      have taken := occupiedInside shape member
      rcases Nat.lt_trichotomy l level with less | equal | more
      · have := fitted.numbered.ascends l level less inside
        exact absurd same (Int.ne_of_lt this)
      · exact equal
      · have := fitted.numbered.ascends level l more taken
        exact absurd same.symm (Int.ne_of_lt this)
  obtain ⟨before, after, split, _, _⟩ := levelSplit side inside
  have ahead := levelOrderAhead side book.levelCount
  rw [split, List.pairwise_append, List.pairwise_cons] at ahead
  have notBefore : ∀ l ∈ before, l ≠ level := by
    rintro l member rfl
    exact Side.aheadIrrefl side l (ahead.2.2 l member l (by simp))
  have notAfter : ∀ l ∈ after, l ≠ level := by
    rintro l member rfl
    exact Side.aheadIrrefl side l (ahead.2.1.1 l member)
  have none : ∀ levels : List Nat, (∀ l ∈ levels, l ≠ level) →
      levels.flatMap (fun l => if l = level then queues side level else []) = [] := by
    intro levels apart
    exact List.flatMap_eq_nil_iff.mpr (fun l member => if_neg (apart l member))
  rw [viewSide, List.filter_map, slotsOf, List.filter_flatMap]
  congr 1
  have each : (fun l => (queues side l).filter
      ((fun o : Order => decide (o.price = book.indexToPrice (UInt32.ofNat level))) ∘
        viewOrder pool)) =
      fun l => if l = level then queues side level else [] := funext own
  rw [each, split, List.flatMap_append, List.flatMap_cons, none before notBefore,
    none after notAfter, if_pos rfl]
  simp

def topSide (book : OrderBook) (side : Side) : Int × Quantity :=
  if 0 ≤ book.bestIndex side then
    (book.indexToPrice (UInt32.ofInt (book.bestIndex side)),
      (book.levelAt side (UInt32.ofInt (book.bestIndex side))).totalQty)
  else (0, 0)

theorem topOfBookSides (book : OrderBook) : book.topOfBook =
    { bidPrice := (book.topSide .buy).1, bidQuantity := (book.topSide .buy).2,
      askPrice := (book.topSide .sell).1, askQuantity := (book.topSide .sell).2 } := rfl

theorem topSideEqBookTop (fitted : Fitted book) (shape : Shape pool book queues) (side : Side) :
    (book.topSide side).1 = (Book.top (viewSide pool book queues side)).1 ∧
      (book.topSide side).2 = UInt32.ofNat (Book.top (viewSide pool book queues side)).2 := by
  rcases Int.lt_or_le (book.bestIndex side) 0 with none | some
  · have empty : viewSide pool book queues side = [] := by
      rw [viewSide, noBestEmpty shape none]
      rfl
    rw [topSide, if_neg (by omega), empty]
    exact ⟨rfl, rfl⟩
  · obtain ⟨level, best⟩ := Int.eq_ofNat_of_zero_le some
    obtain ⟨slot, rest, later, queue, first, _, inside⟩ := bestFirst shape best
    have member : slot ∈ queues side level := by
      rw [queue]
      exact List.mem_cons_self
    have price := slotPrice shape member
    have level' := @viewLevel pool book queues level fitted shape inside side
    have view : viewSide pool book queues side =
        viewOrder pool slot :: (rest ++ later).map (viewOrder pool) := by
      rw [viewSide, first, List.map_cons]
    have sum : (Book.top (viewSide pool book queues side)).2 = pool.openIn (queues side level) := by
      have quantities : quantityOf ((queues side level).map (viewOrder pool)) =
          pool.openIn (queues side level) := by
        rw [quantityOf, List.map_map]
        rfl
      rw [← quantities, ← level', view, Book.top, price]
      rfl
    rw [sum, topSide, if_pos some, best, WordBits.ofIntNatCast, view]
    exact ⟨price.symm, shape.total side level inside⟩

end Levels
end OrderBook

namespace Engine
open OrderBook

section Reports
variable {engine : Engine} {venue : Venue} {id : InstrumentId} {b : Nat}

theorem simTop (sim : Sim engine venue) (found : engine.findBook id = some b) (side : Side) :
    ((engine.books.read b).topSide side).1 = (Book.top (venue.orders b side)).1 ∧
      ((engine.books.read b).topSide side).2 = UInt32.ofNat (Book.top (venue.orders b side)).2 := by
  obtain ⟨queues, rep, _, view⟩ := sim
  obtain ⟨inside, -⟩ := findBookSome rep found
  rw [ordersAt view inside]
  exact topSideEqBookTop (rep.fitted b inside) (rep.shape b inside) side

theorem topOfBookFound (found : engine.findBook id = some b) :
    engine.topOfBook id = (engine.books.read b).topOfBook := by
  rw [topOfBook, found]

def TopTruthful (engine : Engine) (id : InstrumentId) : Prop :=
  TrueTop .buy (restingOrders engine id .buy) (engine.topOfBook id).bidPrice
    (engine.topOfBook id).bidQuantity ∧
    TrueTop .sell (restingOrders engine id .sell) (engine.topOfBook id).askPrice
    (engine.topOfBook id).askQuantity

def bestQuantity (engine : Engine) (id : InstrumentId) (side : Side) : Nat :=
  quantityOf (foremost side (restingOrders engine id side))

theorem topSideTrueIff (sim : Sim engine venue) (found : engine.findBook id = some b)
    (side : Side) :
    TrueTop side (restingOrders engine id side) ((engine.books.read b).topSide side).1
        ((engine.books.read b).topSide side).2 ↔ bestQuantity engine id side < 2 ^ 32 := by
  have proper := simProper sim
  have perm := simPerm sim found side
  obtain ⟨price, sum⟩ := simTop sim found side
  have exact := trueTopIff (proper.sorted b side) (proper.left b side) sum
  rw [price, bestQuantity, foremostPerm perm, ← exact]
  exact ⟨trueTopPerm perm, trueTopPerm perm.symm⟩

end Reports

theorem topOfBookTruthfulIff (actions : List Action) (roomy : Roomy (after actions))
    (id : InstrumentId) (configured : ((after actions).findBook id).isSome = true) :
    TopTruthful (after actions) id ↔ ∀ side, bestQuantity (after actions) id side < 2 ^ 32 := by
  obtain ⟨venue, sim, -⟩ := reached keptTrivial actions roomy
  obtain ⟨b, found⟩ := Option.isSome_iff_exists.mp configured
  have buy := topSideTrueIff sim found .buy
  have sell := topSideTrueIff sim found .sell
  rw [TopTruthful, topOfBookFound found, topOfBookSides]
  constructor
  · rintro ⟨bid, ask⟩ side
    cases side
    · exact buy.mp bid
    · exact sell.mp ask
  · intro fits
    exact ⟨buy.mpr (fits .buy), sell.mpr (fits .sell)⟩

theorem topOfBookOfOneBid : TopTruthful
      (after (calmRun [⟨7, 100000, 1000⟩] [.submit ⟨1, 7, .buy, .limit, .day, 100000, 5⟩])) 7 ↔
    ∀ side, bestQuantity
      (after (calmRun [⟨7, 100000, 1000⟩] [.submit ⟨1, 7, .buy, .limit, .day, 100000, 5⟩])) 7
        side < 2 ^ 32 :=
  topOfBookTruthfulIff _ (roomyOf (by decide +kernel) (by decide +kernel)) 7 (by decide +kernel)

/- Two bids of 2^31 at one price: an empty side is reported. -/
theorem topOfBookLosesFullLevel : ¬∀ actions, Roomy (after actions) → ∀ id,
    ((after actions).findBook id).isSome = true → TopTruthful (after actions) id := by
  intro promised
  have truth :=
    promised (calmRun [⟨7, 100000, 1000⟩]
      [.submit ⟨1, 7, .buy, .limit, .day, 100000, 2147483648⟩,
        .submit ⟨2, 7, .buy, .limit, .day, 100000, 2147483648⟩])
      (roomyOf (by decide +kernel) (by decide +kernel)) 7 (by decide +kernel)
  have none := truth.1.empty.mp (by decide +kernel)
  exact absurd none (by decide +kernel)

end Engine
end Xmatch
