import Xmatch.BookOps
import Xmatch.Venue

/-! The order lists a book stands for: its queues, level by level from the best. -/
namespace Xmatch
open OrderBook

def levelOrder : Side → Nat → List Nat
  | .buy, n => (List.range n).reverse
  | .sell, n => List.range n

def slotsOf (n : Nat) (queues : Queues) (side : Side) : List Slot :=
  (levelOrder side n).flatMap (queues side)

def viewOrder (pool : OrderPool) (slot : Slot) : Order :=
  { id := (pool.get slot).id, price := (pool.get slot).price,
    openQty := (pool.get slot).openQty.toNat, filledQty := (pool.get slot).filledQty.toNat }

def viewSide (pool : OrderPool) (book : OrderBook) (queues : Queues) (side : Side) : List Order :=
  (slotsOf book.levelCount queues side).map (viewOrder pool)

def viewBook (pool : OrderPool) (book : OrderBook) (queues : Queues) : Book :=
  { instrumentId := book.instrumentId, bandLo := book.bandLo, bandHi := book.bandHi,
    bids := viewSide pool book queues .buy, asks := viewSide pool book queues .sell }

@[simp] theorem viewBookSide (pool : OrderPool) (book : OrderBook) (queues : Queues) (side : Side) :
    (viewBook pool book queues).side side = viewSide pool book queues side := by cases side <;> rfl

section Levels
variable {side : Side} {n level : Nat}

theorem memLevelOrder : level ∈ levelOrder side n ↔ level < n := by cases side <;> simp [levelOrder]

theorem levelOrderAhead (side : Side) (n : Nat) : (levelOrder side n).Pairwise side.ahead := by
  cases side
  · simp only [levelOrder, List.pairwise_reverse]
    exact List.pairwise_lt_range
  · exact List.pairwise_lt_range

theorem levelSplit (side : Side) (inside : level < n) :
    ∃ before after, levelOrder side n = before ++ level :: after ∧
    (∀ l ∈ before, side.ahead l level) ∧ ∀ l ∈ after, side.ahead level l := by
  obtain ⟨before, after, split⟩ :=
    List.append_of_mem (memLevelOrder.mpr inside : level ∈ levelOrder side n)
  have ahead := levelOrderAhead side n
  rw [split, List.pairwise_append, List.pairwise_cons] at ahead
  exact ⟨before, after, split, fun l member => ahead.2.2 l member level (by simp), ahead.2.1.1⟩

end Levels

section Slots
variable {queues : Queues} {side other : Side} {n level : Nat} {before after : List Nat}
  {slots : List Slot}

theorem putElsewhere (levels : List Nat) (apart : level ∉ levels) :
    levels.flatMap (queues.put side level slots side) = levels.flatMap (queues side) := by
  refine List.flatMap_congr (fun l member => Queues.putOther (fun h => apart (h.2 ▸ member)))

theorem slotsSplit (split : levelOrder side n = before ++ level :: after) :
    slotsOf n queues side = before.flatMap (queues side) ++ (queues side level ++
      after.flatMap (queues side)) := by
  simp [slotsOf, split]

theorem slotsPut (split : levelOrder side n = before ++ level :: after) :
    slotsOf n (queues.put side level slots) side =
      before.flatMap (queues side) ++ (slots ++ after.flatMap (queues side)) := by
  have ahead := levelOrderAhead side n
  rw [split, List.pairwise_append, List.pairwise_cons] at ahead
  have notBefore : level ∉ before :=
    fun h => Side.aheadIrrefl side level (ahead.2.2 level h level (by simp))
  have notAfter : level ∉ after := fun h => Side.aheadIrrefl side level (ahead.2.1.1 level h)
  rw [slotsSplit split, putElsewhere before notBefore, putElsewhere after notAfter, Queues.putSame]

theorem slotsPutOther (apart : other ≠ side) :
    slotsOf n (queues.put side level slots) other = slotsOf n queues other :=
  List.flatMap_congr (fun _ _ => Queues.putOther (fun h => apart h.1))

end Slots

section Shapes
variable {pool : OrderPool} {book : OrderBook} {queues : Queues} {side : Side} {level l : Nat}
  {slot : Slot}

theorem memSlotsOf (shape : Shape pool book queues) :
    slot ∈ slotsOf book.levelCount queues side ↔ ∃ level, slot ∈ queues side level := by
  simp only [slotsOf, List.mem_flatMap, memLevelOrder]
  constructor
  · rintro ⟨level, _, member⟩
    exact ⟨level, member⟩
  · rintro ⟨level, member⟩
    exact ⟨level, occupiedInside shape member, member⟩

theorem aheadBetter (fitted : Fitted book) {a b : Nat} (insideA : a < book.levelCount)
    (insideB : b < book.levelCount) (ahead : side.ahead a b) :
    side.better (book.indexToPrice (UInt32.ofNat a)) (book.indexToPrice (UInt32.ofNat b)) := by
  cases side
  · exact fitted.numbered.ascends b a ahead insideA
  · exact fitted.numbered.ascends a b ahead insideB

theorem slotPrice (shape : Shape pool book queues) (member : slot ∈ queues side level) :
    (viewOrder pool slot).price = book.indexToPrice (UInt32.ofNat level) :=
  (shape.home side level slot member).price

theorem slotsNodup (shape : Shape pool book queues) (side : Side) :
    (slotsOf book.levelCount queues side).Nodup := by
  rw [slotsOf, List.nodup_flatMap]
  refine ⟨fun l member => (shape.queue side l (memLevelOrder.mp member)).nodup, ?_⟩
  refine (levelOrderAhead side book.levelCount).imp (fun {a b} ahead => ?_)
  intro slot inA inB
  have same := (oneQueue shape inA inB).2
  subst same
  exact Side.aheadIrrefl side _ ahead

theorem betterAsymm {a b : Int} (ab : side.better a b) : ¬side.better b a := by
  cases side <;> simp only [Side.better] at ab ⊢ <;> omega

theorem betterIrrefl (side : Side) (a : Int) : ¬side.better a a := by
  cases side <;> simp [Side.better]

theorem notBetterTrans {a b c : Int} (ab : ¬side.better b a) (bc : ¬side.better c b) :
    ¬side.better c a := by
  cases side <;> simp only [Side.better] at ab bc ⊢ <;> omega

def Sorted (side : Side) (orders : List Order) : Prop :=
  orders.Pairwise (fun a b => ¬side.better b.price a.price)

theorem viewSorted (fitted : Fitted book) (shape : Shape pool book queues) (side : Side) :
    Sorted side (viewSide pool book queues side) := by
  rw [Sorted, viewSide, List.pairwise_map, slotsOf, List.pairwise_flatMap]
  refine ⟨fun l _ => ?_, ?_⟩
  · refine List.pairwise_of_forall_mem_list (fun a inA b inB => ?_)
    rw [slotPrice shape inA, slotPrice shape inB]
    exact betterIrrefl _ _
  · refine (levelOrderAhead side book.levelCount).imp (fun {a b} ahead => ?_)
    intro x inA y inB
    rw [slotPrice shape inA, slotPrice shape inB]
    exact betterAsymm (aheadBetter fitted (occupiedInside shape inA)
      (occupiedInside shape inB) ahead)

end Shapes

section Enqueue
variable {side : Side} {order : Order}

theorem enqueueSplit {front back : List Order}
    (good : ∀ o ∈ front, ¬side.better order.price o.price)
    (worse : ∀ o ∈ back, side.better order.price o.price) :
    enqueue side order (front ++ back) = front ++ order :: back := by
  induction front with
  | nil =>
    cases back with
    | nil => rfl
    | cons b back => simp [enqueue, worse b List.mem_cons_self]
  | cons a front ih =>
    rw [List.cons_append, enqueue, if_neg (good a List.mem_cons_self),
      ih (fun o member => good o (List.mem_cons_of_mem _ member))]
    rfl

end Enqueue

section Effects
variable {pool pool' : OrderPool} {book book' : OrderBook} {queues : Queues} {side : Side}
  {level : Nat}

theorem viewCongr {queues' : Queues} (frame : SameFrame book book')
    (slots : slotsOf book.levelCount queues' side = slotsOf book.levelCount queues side)
    (same : ∀ slot ∈ slotsOf book.levelCount queues side, viewOrder pool' slot =
      viewOrder pool slot) :
    viewSide pool' book' queues' side = viewSide pool book queues side := by
  have count : book'.levelCount = book.levelCount := by rw [levelCount, levelCount, frame.ladder]
  rw [viewSide, viewSide, count, slots]
  exact List.map_congr_left same

theorem viewOrderCore {slot : Slot} (core : (pool'.get slot).core = (pool.get slot).core) :
    viewOrder pool' slot = viewOrder pool slot := by
  have id := congrArg OrderRecord.id core
  have price := congrArg OrderRecord.price core
  have openQty := congrArg OrderRecord.openQty core
  have filledQty := congrArg OrderRecord.filledQty core
  simp only [OrderRecord.core] at id price openQty filledQty
  simp only [viewOrder, id, price, openQty, filledQty]

theorem viewLists {pool : OrderPool} {left right : List Slot} :
    (∀ s ∈ left ++ right, viewOrder pool' s = viewOrder pool s) →
      left.map (viewOrder pool') = left.map (viewOrder pool) ∧
        right.map (viewOrder pool') = right.map (viewOrder pool) := fun same =>
  ⟨List.map_congr_left (fun s member => same s (List.mem_append_left _ member)),
    List.map_congr_left (fun s member => same s (List.mem_append_right _ member))⟩

section Append
variable {slot : Slot} {price : Int}

theorem addRestingView (fitted : Fitted book) (shape : Shape pool book queues)
    (idle : (pool.get slot).isOpen = false) (bounded : level < book.levelCount)
    (indexed : book.priceToIndex price = (level : Int))
    (priced : book.indexToPrice (UInt32.ofNat level) = price) :
    viewSide (addResting pool book slot side price).1 (addResting pool book slot side price).2
        (queues.put side level (queues side level ++ [slot])) side =
      enqueue side { viewOrder pool slot with price } (viewSide pool book queues side) ∧
    viewSide (addResting pool book slot side price).1 (addResting pool book slot side price).2
        (queues.put side level (queues side level ++ [slot])) side.opposite =
      viewSide pool book queues side.opposite := by
  have fresh : ∀ s l, slot ∉ queues s l := by
    intro s l member
    have := (shape.home s l slot member).isOpen
    rw [idle] at this
    contradiction
  have frame := addRestingFrame pool book side slot price
  have count : (addResting pool book slot side price).2.levelCount = book.levelCount := by
    rw [levelCount, levelCount, frame.ladder]
  have records := addRestingRecords slot (shape.queue side level bounded) indexed
  have others : ∀ s, s ≠ slot →
      viewOrder (addResting pool book slot side price).1 s = viewOrder pool s := by
    intro s other
    refine viewOrderCore ?_
    rw [records.core, entered, if_neg other]
  have own : viewOrder (addResting pool book slot side price).1 slot =
      { viewOrder pool slot with price } := by
    have core := records.core slot
    rw [entered, if_pos rfl] at core
    have id := congrArg OrderRecord.id core
    have price' := congrArg OrderRecord.price core
    have openQty := congrArg OrderRecord.openQty core
    have filledQty := congrArg OrderRecord.filledQty core
    simp only [OrderRecord.core] at id price' openQty filledQty
    simp only [viewOrder, id, price', openQty, filledQty]
  constructor
  · obtain ⟨before, after, split, ahead, behind⟩ := levelSplit side bounded
    rw [viewSide, viewSide, count, slotsPut split, slotsSplit split, List.append_assoc,
      ← List.append_assoc, ← List.append_assoc (before.flatMap (queues side))]
    have same : ∀ s ∈ (before.flatMap (queues side) ++ queues side level) ++ after.flatMap (queues side),
        viewOrder (addResting pool book slot side price).1 s = viewOrder pool s := by
      intro s member
      refine others s ?_
      rintro rfl
      simp only [List.mem_append, List.mem_flatMap] at member
      rcases member with (⟨l, _, here⟩ | here) | ⟨l, _, here⟩
      all_goals exact fresh _ _ here
    obtain ⟨front, back⟩ := viewLists same
    have whole : ((before.flatMap (queues side) ++ queues side level) ++
      after.flatMap (queues side)).map (viewOrder pool) =
        (before.flatMap (queues side) ++ queues side level).map (viewOrder pool) ++
          (after.flatMap (queues side)).map (viewOrder pool) := List.map_append
    rw [List.map_append, List.singleton_append, List.map_cons, own, front, back, whole]
    refine (enqueueSplit ?_ ?_).symm
    · intro o member
      obtain ⟨s, inSlots, rfl⟩ := List.mem_map.mp member
      rcases List.mem_append.mp inSlots with early | here
      · obtain ⟨l, listed, inQueue⟩ := List.mem_flatMap.mp early
        have better := aheadBetter fitted (occupiedInside shape inQueue) bounded (ahead l listed)
        rw [slotPrice shape inQueue, ← priced]
        exact betterAsymm better
      · rw [slotPrice shape here, priced]
        exact betterIrrefl _ _
    · intro o member
      obtain ⟨s, inSlots, rfl⟩ := List.mem_map.mp member
      obtain ⟨l, listed, inQueue⟩ := List.mem_flatMap.mp inSlots
      rw [slotPrice shape inQueue, ← priced]
      exact aheadBetter fitted bounded (occupiedInside shape inQueue) (behind l listed)
  · refine viewCongr frame (slotsPutOther (Side.oppositeNe side)) (fun s member => others s ?_)
    rintro rfl
    obtain ⟨l, here⟩ := (memSlotsOf shape).mp member
    exact fresh _ l here

end Append

section Remove
variable {slot newSlot : Slot} {front back : List Slot}

theorem removeRestingView (shape : Shape pool book queues)
    (here : queues side level = front ++ slot :: back) :
    ∃ left right, viewSide pool book queues side = left ++ viewOrder pool slot :: right ∧
      viewSide (removeResting pool book slot).1 (removeResting pool book slot).2
        (queues.put side level (front ++ back)) side = left ++ right ∧
      viewSide (removeResting pool book slot).1 (removeResting pool book slot).2
        (queues.put side level (front ++ back)) side.opposite =
          viewSide pool book queues side.opposite := by
  have member : slot ∈ queues side level := by simp [here]
  have bounded := occupiedInside shape member
  have frame := removeRestingFrame pool book slot
  have count : (removeResting pool book slot).2.levelCount = book.levelCount := by
    rw [levelCount, levelCount, frame.ladder]
  have queue := shape.queue side level bounded
  rw [here] at queue
  have records := removeRestingRecords queue
  have same : ∀ s, viewOrder (removeResting pool book slot).1 s = viewOrder pool s := by
    intro s
    have core := records.core s
    rw [left] at core
    have id := congrArg OrderRecord.id core
    have price := congrArg OrderRecord.price core
    have openQty := congrArg OrderRecord.openQty core
    have filledQty := congrArg OrderRecord.filledQty core
    simp only [OrderRecord.core] at id price openQty filledQty
    simp only [viewOrder, id, price, openQty, filledQty]
    split <;> rfl
  obtain ⟨before, after, split, _, _⟩ := levelSplit side bounded
  refine ⟨(before.flatMap (queues side) ++ front).map (viewOrder pool),
    (back ++ after.flatMap (queues side)).map (viewOrder pool), ?_, ?_, ?_⟩
  · rw [viewSide, slotsSplit split, here]
    simp
  · rw [viewSide, count, slotsPut split, funext same]
    simp
  · exact viewCongr frame (slotsPutOther (Side.oppositeNe side)) (fun s _ => same s)

theorem replaceInPlaceView (shape : Shape pool book queues)
    (here : queues side level = front ++ slot :: back) (idle : (pool.get newSlot).isOpen = false) :
    ∃ left right, viewSide pool book queues side = left ++ viewOrder pool slot :: right ∧
      viewSide (replaceInPlace pool book slot newSlot).1 (replaceInPlace pool book slot newSlot).2
        (queues.put side level (front ++ newSlot :: back)) side =
          left ++ { viewOrder pool newSlot with price := (pool.get slot).price } :: right ∧
      viewSide (replaceInPlace pool book slot newSlot).1 (replaceInPlace pool book slot newSlot).2
        (queues.put side level (front ++ newSlot :: back)) side.opposite =
          viewSide pool book queues side.opposite := by
  have member : slot ∈ queues side level := by simp [here]
  have bounded := occupiedInside shape member
  have fresh : ∀ s l, newSlot ∉ queues s l := by
    intro s l new
    have := (shape.home s l newSlot new).isOpen
    rw [idle] at this
    contradiction
  have distinct : slot ≠ newSlot := fun same => fresh side level (same ▸ member)
  have frame := replaceInPlaceFrame pool book slot newSlot
  have count : (replaceInPlace pool book slot newSlot).2.levelCount = book.levelCount := by
    rw [levelCount, levelCount, frame.ladder]
  have queue := shape.queue side level bounded
  rw [here] at queue
  have records := replaceInPlaceRecords distinct queue
  have fields : ∀ s, viewOrder (replaceInPlace pool book slot newSlot).1 s =
      if s = newSlot then { viewOrder pool newSlot with price := (pool.get slot).price }
      else viewOrder pool s := by
    intro s
    have core := records.core s
    rw [succeeded] at core
    have id := congrArg OrderRecord.id core
    have price := congrArg OrderRecord.price core
    have openQty := congrArg OrderRecord.openQty core
    have filledQty := congrArg OrderRecord.filledQty core
    simp only [OrderRecord.core] at id price openQty filledQty
    simp only [viewOrder, id, price, openQty, filledQty]
    by_cases old : s = slot
    · rw [if_pos old, if_neg (by rw [old]; exact distinct)]
    · rw [if_neg old]
      split
      · rename_i same
        rw [same]
      · rfl
  have others : ∀ s, s ≠ newSlot →
      viewOrder (replaceInPlace pool book slot newSlot).1 s = viewOrder pool s :=
    fun s other => by rw [fields, if_neg other]
  obtain ⟨before, after, split, _, _⟩ := levelSplit side bounded
  refine ⟨(before.flatMap (queues side) ++ front).map (viewOrder pool),
    (back ++ after.flatMap (queues side)).map (viewOrder pool), ?_, ?_, ?_⟩
  · rw [viewSide, slotsSplit split, here]
    simp
  · have same : ∀ s ∈ (before.flatMap (queues side) ++ front) ++ (back ++ after.flatMap (queues side)),
        viewOrder (replaceInPlace pool book slot newSlot).1 s = viewOrder pool s := by
      intro s listed
      refine others s ?_
      rintro rfl
      simp only [List.mem_append, List.mem_flatMap] at listed
      rcases listed with (⟨l, _, early⟩ | inFront) | (inBack | ⟨l, _, late⟩)
      · exact fresh _ _ early
      · exact fresh side level (by simp [here, inFront])
      · exact fresh side level (by simp [here, inBack])
      · exact fresh _ _ late
    obtain ⟨leftSame, rightSame⟩ := viewLists same
    rw [viewSide, count, slotsPut split, List.append_assoc, List.cons_append, ← List.append_assoc,
      List.map_append, List.map_cons, leftSame, rightSame, fields, if_pos rfl]
  · refine viewCongr frame (slotsPutOther (Side.oppositeNe side)) (fun s listed => others s ?_)
    rintro rfl
    obtain ⟨l, inQueue⟩ := (memSlotsOf shape).mp listed
    exact fresh _ l inQueue

end Remove

theorem bestFirst (shape : Shape pool book queues) (best : book.bestIndex side = (level : Int)) :
    ∃ slot rest later, queues side level = slot :: rest ∧
      slotsOf book.levelCount queues side = slot :: (rest ++ later) ∧
      (book.levelAt side (UInt32.ofNat level)).head = slot ∧ level < book.levelCount := by
  obtain ⟨occupied, first⟩ := (shape.best side).some level best
  obtain ⟨slot, rest, here⟩ := List.exists_cons_of_ne_nil occupied
  have member : slot ∈ queues side level := by
    rw [here]
    exact List.mem_cons_self
  have bounded := occupiedInside shape member
  obtain ⟨before, after, split, ahead, _⟩ := levelSplit side bounded
  have empty : before.flatMap (queues side) = [] := by
    rw [List.flatMap_eq_nil_iff]
    intro l listed
    by_contra taken
    exact first l taken (ahead l listed)
  refine ⟨slot, rest, after.flatMap (queues side), here, ?_, ?_, bounded⟩
  · rw [slotsSplit split, empty, here]
    rfl
  · have head := (shape.queue side level bounded).head
    rw [here] at head
    exact head

theorem noBestEmpty (shape : Shape pool book queues) (none : book.bestIndex side < 0) :
    slotsOf book.levelCount queues side = [] := by
  rw [slotsOf, List.flatMap_eq_nil_iff]
  intro l _
  by_contra taken
  exact ((shape.best side).none none).2 l taken

end Effects
end Xmatch
