import Xmatch.BookShape

/-! The three operations on the queues of a book: append, remove, replace in place. -/
namespace Xmatch
namespace OrderBook
open LinkedQueue

section Joins
variable (pool : OrderPool) (lvl : Level) (neighbour slot s : Slot)

theorem getJoinNext : (joinNext pool lvl neighbour slot).1.get s =
    if neighbour ≠ kInvalidSlot ∧ s = neighbour then { pool.get s with next := slot }
    else pool.get s := by
  unfold joinNext
  by_cases real : neighbour = kInvalidSlot
  · simp [real]
  · simp only [ne_eq, real, not_false_eq_true, if_true, true_and, OrderPool.getModify]
    split
    · rename_i same
      rw [same]
    · rfl

theorem getJoinPrev : (joinPrev pool lvl neighbour slot).1.get s =
    if neighbour ≠ kInvalidSlot ∧ s = neighbour then { pool.get s with prev := slot }
    else pool.get s := by
  unfold joinPrev
  by_cases real : neighbour = kInvalidSlot
  · simp [real]
  · simp only [ne_eq, real, not_false_eq_true, if_true, true_and, OrderPool.getModify]
    split
    · rename_i same
      rw [same]
    · rfl

theorem joinNextLevel : (joinNext pool lvl neighbour slot).2 =
    { lvl with head := if neighbour = kInvalidSlot then slot else lvl.head } := by
  unfold joinNext
  by_cases real : neighbour = kInvalidSlot <;> simp [real]

theorem joinPrevLevel : (joinPrev pool lvl neighbour slot).2 =
    { lvl with tail := if neighbour = kInvalidSlot then slot else lvl.tail } := by
  unfold joinPrev
  by_cases real : neighbour = kInvalidSlot <;> simp [real]

theorem joinNextCore : ((joinNext pool lvl neighbour slot).1.get s).core = (pool.get s).core := by
  rw [getJoinNext]
  split <;> rfl

theorem joinPrevCore : ((joinPrev pool lvl neighbour slot).1.get s).core = (pool.get s).core := by
  rw [getJoinPrev]
  split <;> rfl

theorem linksJoinNext : (joinNext pool lvl neighbour slot).1.links =
    ⟨if neighbour = kInvalidSlot then pool.links.next
      else Function.update pool.links.next neighbour slot,
      pool.links.prev⟩ := by
  by_cases real : neighbour = kInvalidSlot
  · simp [joinNext, real]
  · simp only [OrderPool.links, getJoinNext, real, ne_eq, not_false_eq_true, true_and, if_false]
    congr 1
    · funext s
      rw [Function.update_apply]
      split <;> rfl
    · funext s
      split <;> rfl

theorem linksJoinPrev : (joinPrev pool lvl neighbour slot).1.links =
    ⟨pool.links.next,
      if neighbour = kInvalidSlot then pool.links.prev
      else Function.update pool.links.prev neighbour slot⟩ := by
  by_cases real : neighbour = kInvalidSlot
  · simp [joinPrev, real]
  · simp only [OrderPool.links, getJoinPrev, real, ne_eq, not_false_eq_true, true_and, if_false]
    congr 1
    · funext s
      split <;> rfl
    · funext s
      rw [Function.update_apply]
      split <;> rfl

theorem linksModify (f : OrderRecord → OrderRecord) : (pool.modify slot f).links =
    ⟨Function.update pool.links.next slot (f (pool.get slot)).next,
      Function.update pool.links.prev slot (f (pool.get slot)).prev⟩ := by
  simp only [OrderPool.links, OrderPool.getModify]
  congr 1
  · funext s
    rw [Function.update_apply]
    split <;> rfl
  · funext s
    rw [Function.update_apply]
    split <;> rfl

theorem joinNextChunks : (joinNext pool lvl neighbour slot).1.chunks.size = pool.chunks.size := by
  unfold joinNext
  split <;> rfl

theorem joinPrevChunks : (joinPrev pool lvl neighbour slot).1.chunks.size = pool.chunks.size := by
  unfold joinPrev
  split <;> rfl

end Joins

/- Records change by `change`, up to links; only those in `among` change at all. -/
structure Relinked (pool pool' : OrderPool) (among : List Slot)
    (change : Slot → OrderRecord → OrderRecord) : Prop where
  size : pool'.size = pool.size
  chunks : pool'.chunks.size = pool.chunks.size
  core : ∀ slot, (pool'.get slot).core = (change slot (pool.get slot)).core
  kept : ∀ slot, slot ∉ among → pool'.get slot = pool.get slot

section Best
variable {book : OrderBook} {side other : Side} {occupied : Nat → Prop}

@[simp] theorem levelAtMark (idx i : UInt32) :
    (markOccupied book side idx).levelAt other i = book.levelAt other i := by
  unfold markOccupied
  split <;> simp

@[simp] theorem levelAtImprove (idx i : UInt32) :
    (improveBest book side idx).levelAt other i = book.levelAt other i := by
  cases side <;> simp only [improveBest] <;> split <;> simp

@[simp] theorem levelAtVacate (idx i : UInt32) :
    (vacate book side idx).levelAt other i = book.levelAt other i := by
  unfold vacate
  split
  · simp only
    split <;> simp
  · rfl

@[simp] theorem bitmapImprove (idx : UInt32) :
    (improveBest book side idx).bitmap other = book.bitmap other := by
  cases side <;> simp only [improveBest] <;> split <;> simp

@[simp] theorem bestIndexMark (idx : UInt32) :
    (markOccupied book side idx).bestIndex other = book.bestIndex other := by
  unfold markOccupied
  split <;> simp

theorem bitmapMark (idx : UInt32) : (markOccupied book side idx).bitmap other =
    if (book.levelAt side idx).orderCount = 1 ∧ other = side then (book.bitmap side).set idx
    else book.bitmap other := by
  unfold markOccupied
  split
  · rename_i first
    simp [bitmapPutBitmap, first]
  · rename_i more
    simp [more]

theorem improveBestOther (idx : UInt32) (apart : other ≠ side) :
    (improveBest book side idx).bestIndex other = book.bestIndex other := by
  cases side <;> simp only [improveBest] <;> split <;> simp [bestIndexPutBest, apart]

theorem nearestWith {best best' : Int} {idx : Nat}
    (nearest : LevelBitset.Nearest occupied side.ahead best)
    (choice : (best' = idx ∧ ∀ b : Nat, best = b → side.ahead idx b) ∨
      (best' = best ∧ ∃ b : Nat, best = b ∧ ¬side.ahead idx b)) :
    LevelBitset.Nearest (fun level => occupied level ∨ level = idx) side.ahead best' := by
  rcases choice with ⟨rfl, first⟩ | ⟨rfl, b, rfl, behind⟩
  · refine ⟨fun negative => by omega, fun level same => ?_⟩
    obtain rfl := Int.ofNat.inj same
    refine ⟨.inr rfl, fun other inUse ahead => ?_⟩
    rcases inUse with inUse | rfl
    · rcases Int.lt_or_le best 0 with empty | real
      · exact (nearest.none empty).2 other inUse
      · obtain ⟨b, rfl⟩ := Int.eq_ofNat_of_zero_le real
        exact (nearest.some b rfl).2 other inUse (Side.aheadTrans ahead (first b rfl))
    · exact Side.aheadIrrefl side _ ahead
  · refine ⟨fun negative => by omega, fun level same => ?_⟩
    obtain ⟨taken, first⟩ := nearest.some level same
    obtain rfl := Int.ofNat.inj same
    refine ⟨.inl taken, fun other inUse => ?_⟩
    rcases inUse with inUse | rfl
    · exact first other inUse
    · exact behind

theorem improveBestNearest (nearest : LevelBitset.Nearest occupied side.ahead (book.bestIndex side))
    (idx : UInt32) :
    LevelBitset.Nearest (fun level => occupied level ∨ level = idx.toNat) side.ahead
      ((improveBest book side idx).bestIndex side) := by
  refine nearestWith nearest ?_
  cases side
  all_goals
    simp only [improveBest]
    split
    · exact .inl ⟨by rw [bestIndexPutBest, if_pos rfl], fun b same => by simp only [Side.ahead]; omega⟩
    · rename_i kept
      obtain ⟨b, same⟩ :=
        Int.eq_ofNat_of_zero_le (Int.not_lt.mp (fun negative => kept (.inl negative)))
      exact .inr ⟨rfl, b, same, by simp only [Side.ahead]; omega⟩

theorem bitmapVacate (idx : UInt32) (empty : (book.levelAt side idx).orderCount = 0) :
    (vacate book side idx).bitmap other =
      if other = side then (book.bitmap side).clear idx else book.bitmap other := by
  rw [vacate, if_pos empty]
  simp only
  split <;> simp [bitmapPutBitmap]

theorem vacateOther (idx : UInt32) (apart : other ≠ side) :
    (vacate book side idx).bestIndex other = book.bestIndex other := by
  unfold vacate
  split
  · simp only
    split <;> simp [bestIndexPutBest, apart]
  · rfl

theorem vacateNearest (nearest : LevelBitset.Nearest occupied side.ahead (book.bestIndex side))
    (bits : ∀ level, (book.bitmap side).has level = true ↔ occupied level)
    (stored : ∀ level, occupied level → level / 64 < (book.bitmap side).words.size)
    (idx : UInt32) (empty : (book.levelAt side idx).orderCount = 0) :
    LevelBitset.Nearest (fun level => occupied level ∧ level ≠ idx.toNat) side.ahead
      ((vacate book side idx).bestIndex side) := by
  have cleared : ∀ level, ((book.bitmap side).clear idx).has level = true ↔
      occupied level ∧ level ≠ idx.toNat := by
    intro level
    simp [LevelBitset.hasClear, bits]
  rw [vacate, if_pos empty]
  simp only [bestIndexPutBitmap]
  split
  · rename_i wasBest
    have first := (nearest.some _ wasBest).2
    rw [bestIndexPutBest, if_pos rfl]
    cases side
    · have found := LevelBitset.findHighestLeNearest ((book.bitmap .buy).clear idx) (idx.toNat - 1)
      refine LevelBitset.nearestCongr (fun level => ?_) found
      rw [cleared]
      constructor
      · exact fun h => h.2
      · intro h
        have := first level h.1
        simp only [Side.ahead] at this
        exact ⟨by omega, h⟩
    · have found := LevelBitset.findLowestGeNearest ((book.bitmap .sell).clear idx) (idx.toNat + 1)
      refine LevelBitset.nearestCongr (fun level => ?_) found
      rw [cleared, LevelBitset.sizeClear]
      constructor
      · exact fun h => h.2.2
      · intro h
        have := first level h.1
        simp only [Side.ahead] at this
        exact ⟨by omega, stored level h.1, h⟩
  · rename_i notBest
    rw [bestIndexPutBitmap]
    refine ⟨fun negative =>
      ⟨(nearest.none negative).1, fun level inUse => (nearest.none negative).2 level inUse.1⟩,
      fun level same => ?_⟩
    obtain ⟨inUse, first⟩ := nearest.some level same
    exact ⟨⟨inUse, fun h => notBest (by rw [same, h])⟩, fun other taken => first other taken.1⟩

end Best
section Append
variable {pool : OrderPool} {book : OrderBook} {queues : Queues} {side : Side} {level : Nat}
  {slot : Slot} {price : Int}

def entered (book : OrderBook) (slot : Slot) (side : Side) (price : Int) (s : Slot)
    (rec : OrderRecord) : OrderRecord :=
  if s = slot then
    { rec with side, price, levelIndex := UInt32.ofInt (book.priceToIndex price), isOpen := true }
  else rec

theorem addRestingCore (pool : OrderPool) (book : OrderBook) (slot : Slot) (side : Side)
    (price : Int) (s : Slot) :
    ((addResting pool book slot side price).1.get s).core =
      (entered book slot side price s (pool.get s)).core := by
  simp only [addResting, joinNextCore, OrderPool.getModify, entered]
  split
  · rename_i same
    subst same
    rfl
  · rfl

theorem addRestingRecords (slot : Slot)
    (queue : Queue kInvalidSlot pool.links (book.ends side level) (queues side level))
    (indexed : book.priceToIndex price = (level : Int)) :
    Relinked pool (addResting pool book slot side price).1 (slot :: queues side level)
      (entered book slot side price) := by
  have index : UInt32.ofInt (book.priceToIndex price) = UInt32.ofNat level := by
    rw [indexed, WordBits.ofIntNatCast]
  refine ⟨addRestingSize .., ?_, addRestingCore pool book slot side price, fun s outside => ?_⟩
  · simp only [addResting, joinNextChunks]
    rfl
  · rw [List.mem_cons, not_or] at outside
    have notTail : ¬((book.levelAt side (UInt32.ofNat level)).tail ≠ kInvalidSlot ∧
        s = (book.levelAt side (UInt32.ofNat level)).tail) :=
      fun h => outside.2 (h.2 ▸ tailQueued queue h.1)
    simp only [addResting, getJoinNext, index, OrderPool.getModify, outside.1, notTail, if_false]

theorem addRestingLinks (pool : OrderPool) (slot : Slot) (side : Side)
    (indexed : book.priceToIndex price = (level : Int)) :
    (addResting pool book slot side price).1.links =
        (pushBack kInvalidSlot pool.links (book.ends side level) slot).1 ∧
      (addResting pool book slot side price).2.ends side level =
        (pushBack kInvalidSlot pool.links (book.ends side level) slot).2 := by
  have index : UInt32.ofInt (book.priceToIndex price) = UInt32.ofNat level := by
    rw [indexed, WordBits.ofIntNatCast]
  constructor
  · simp only [addResting, linksJoinNext, linksModify, index, pushBack, ends]
    rfl
  · simp only [ends, addResting, levelAtImprove, levelAtMark, levelAtPutLevel, index, joinNextLevel,
      pushBack, and_self, if_true]
    rfl

theorem markBits (shape : Shape pool book queues) (bounded : level < book.levelCount) {lvl : Level}
    {slots : List Slot} (first : lvl.orderCount = 1 ↔ queues side level = []) (taken : slots ≠ [])
    (s : Side) (l : Nat) :
    ((markOccupied (book.putLevel side (UInt32.ofNat level) lvl) side (UInt32.ofNat level)).bitmap
      s).has l = true ↔
      queues.put side level slots s l ≠ [] := by
  rw [bitmapMark]
  simp only [levelAtPutLevel, and_self, if_true, first, bitmapPutLevel]
  by_cases here : s = side ∧ l = level
  · obtain ⟨rfl, rfl⟩ := here
    rw [Queues.putSame]
    split
    · simp [LevelBitset.hasSet, levelNarrow bounded, taken]
    · rename_i more
      simpa [shape.bits, taken] using more
  · rw [Queues.putOther here, ← shape.bits]
    split
    · rename_i empty
      have otherLevel : l ≠ level := fun h => here ⟨empty.2, h⟩
      simp [LevelBitset.hasSet, levelNarrow bounded, otherLevel, empty.2]
    · rfl

theorem improvedBest (shape : Shape pool book queues) (bounded : level < book.levelCount)
    {lvl : Level} {slots : List Slot} (taken : slots ≠ []) (s : Side) :
    LevelBitset.Nearest (fun l => queues.put side level slots s l ≠ []) s.ahead
      ((improveBest (markOccupied (book.putLevel side (UInt32.ofNat level) lvl) side
        (UInt32.ofNat level)) side
        (UInt32.ofNat level)).bestIndex s) := by
  by_cases same : s = side
  · subst same
    have before : LevelBitset.Nearest (fun l => queues s l ≠ []) s.ahead
        ((markOccupied (book.putLevel s (UInt32.ofNat level) lvl) s (UInt32.ofNat level)).bestIndex
          s) := by
      rw [bestIndexMark, bestIndexPutLevel]
      exact shape.best s
    refine LevelBitset.nearestCongr (fun l => ?_) (improveBestNearest before (UInt32.ofNat level))
    rw [levelNarrow bounded]
    by_cases here : l = level
    · subst here
      simp [taken]
    · rw [Queues.putOther (fun h => here h.2)]
      simp [here]
  · rw [improveBestOther _ same, bestIndexMark, bestIndexPutLevel]
    refine LevelBitset.nearestCongr (fun l => ?_) (shape.best s)
    rw [Queues.putOther (fun h => same h.1)]

theorem addRestingShape (shape : Shape pool book queues) (small : pool.size < 2 ^ 32)
    (inside : slot.toNat < pool.size) (real : slot ≠ kInvalidSlot)
    (idle : (pool.get slot).isOpen = false)
    (owner : (pool.get slot).instrumentId = book.instrumentId) (bounded : level < book.levelCount)
    (indexed : book.priceToIndex price = (level : Int))
    (priced : book.indexToPrice (UInt32.ofNat level) = price) :
    Shape (addResting pool book slot side price).1 (addResting pool book slot side price).2
      (queues.put side level (queues side level ++ [slot])) := by
  have index : UInt32.ofInt (book.priceToIndex price) = UInt32.ofNat level := by
    rw [indexed, WordBits.ofIntNatCast]
  have fresh : ∀ s l, slot ∉ queues s l := by
    intro s l member
    have := (shape.home s l slot member).isOpen
    rw [idle] at this
    contradiction
  have queue := shape.queue side level bounded
  have records := addRestingRecords slot queue indexed
  have unchanged : ∀ s ∈ queues side level,
      ((addResting pool book slot side price).1.get s).core = (pool.get s).core := by
    intro s member
    have other : s ≠ slot := fun same => fresh side level (same ▸ member)
    rw [records.core, entered, if_neg other]
  have own : ((addResting pool book slot side price).1.get slot).core =
      (entered book slot side price slot (pool.get slot)).core := records.core slot
  rw [entered, if_pos rfl] at own
  have openQty : ∀ s, ((addResting pool book slot side price).1.get s).openQty =
      (pool.get s).openQty := by
    intro s
    have := congrArg OrderRecord.openQty (records.core s)
    simp only [entered] at this
    split at this <;> exact this
  have notBefore : (queues side level).length + 1 < 2 ^ 32 := by
    have nodup : (slot :: queues side level).Nodup :=
      List.nodup_cons.mpr ⟨fresh side level, queue.nodup⟩
    have held : ∀ s ∈ slot :: queues side level, s.toNat < pool.size := by
      intro s member
      rcases List.mem_cons.mp member with same | member
      · rw [same]
        exact inside
      · exact (shape.home side level s member).inside
    have := queueShort nodup held
    simp only [List.length_cons] at this
    omega
  obtain ⟨lvl, lvlEq⟩ : ∃ lvl, lvl = { book.levelAt side (UInt32.ofNat level) with
      head := (pushBack kInvalidSlot pool.links (book.ends side level) slot).2.head
      tail := slot
      totalQty := (book.levelAt side (UInt32.ofNat level)).totalQty + (pool.get slot).openQty
      orderCount := (book.levelAt side (UInt32.ofNat level)).orderCount + 1 } := ⟨_, rfl⟩
  have book' : (addResting pool book slot side price).2 =
      improveBest (markOccupied (book.putLevel side (UInt32.ofNat level) lvl) side
        (UInt32.ofNat level)) side (UInt32.ofNat level) := by
    have total : ((joinNext (pool.modify slot fun rec => { rec with
          side, price, levelIndex := UInt32.ofNat level, isOpen := true,
          prev := (book.levelAt side (UInt32.ofNat level)).tail, next := kInvalidSlot })
          (book.levelAt side (UInt32.ofNat level)) (book.levelAt side (UInt32.ofNat level)).tail
            slot).1.get slot).openQty =
        (pool.get slot).openQty := by
      have := openQty slot
      simpa only [addResting, index] using this
    simp only [addResting, index, joinNextLevel, total, lvlEq, pushBack, ends]
    rfl
  have first : lvl.orderCount = 1 ↔ queues side level = [] := by
    have exact : lvl.orderCount = UInt32.ofNat ((queues side level).length + 1) := by
      rw [UInt32.ofNat_add, ← shape.count side level bounded, lvlEq]
      rfl
    rw [exact, ← UInt32.toNat_inj, WordBits.toNatOfNat notBefore, ← List.length_eq_zero_iff]
    exact Nat.succ_inj
  have level' : (addResting pool book slot side price).2.levelAt side
      (UInt32.ofNat level) = lvl := by
    simp only [book', levelAtImprove, levelAtMark, levelAtPutLevel, and_self, if_true]
  have links := addRestingLinks pool slot side indexed
  refine shapeChange shape ⟨bounded, addRestingFrame .., records.size, fun s i other => ?_,
    fun s outside new => ?_,
    fun s l other here new => ?_, ?_, fun s member => ?_, ?_, ?_, fun s l => ?_, fun s => ?_⟩
  · simp only [addResting, levelAtImprove, levelAtMark, levelAtPutLevel, index, other, if_false]
  · refine records.kept s (fun member => ?_)
    rcases List.mem_cons.mp member with rfl | member
    · simp at new
    · exact outside member
  · rcases List.mem_append.mp new with old | own
    · exact oneQueue shape old here
    · rw [List.mem_singleton.mp own] at here
      exact absurd here (fresh s l)
  · rw [links.1, links.2]
    exact pushBackQueue queue (fresh side level) real
  · rcases List.mem_append.mp member with old | new
    · exact homeFrame (shape.home side level s old) (Nat.le_of_eq records.size.symm)
        (unchanged s old) (addRestingFrame ..)
    · rw [List.mem_singleton.mp new]
      refine ⟨by rw [records.size]; exact inside, ?_, ?_, ?_, ?_, ?_⟩
      · exact congrArg OrderRecord.isOpen own
      · exact congrArg OrderRecord.side own
      · exact (congrArg OrderRecord.instrumentId own).trans
          (owner.trans (addRestingFrame ..).instrumentId.symm)
      · exact (congrArg OrderRecord.levelIndex own).trans index
      · refine (congrArg OrderRecord.price own).trans ?_
        rw [indexToPrice, (addRestingFrame pool book side slot price).ladder]
        exact priced.symm
  · rw [level', lvlEq, List.length_append]
    simp only [shape.count side level bounded, UInt32.ofNat_add]
    rfl
  · rw [level', lvlEq]
    simp only [shape.total side level bounded, OrderPool.openIn, List.map_append, List.sum_append,
      openQty]
    simp [UInt32.ofNat_add]
  · rw [book', bitmapImprove]
    exact markBits shape bounded first (by simp) s l
  · rw [book']
    exact improvedBest shape bounded (by simp) s

end Append

section Remove
variable {pool : OrderPool} {book : OrderBook} {queues : Queues} {side : Side} {level : Nat}
  {slot : Slot} {front back : List Slot}

def left (slot s : Slot) (rec : OrderRecord) : OrderRecord :=
  if s = slot then { rec with isOpen := false } else rec

theorem bypassEq (lvl : Level) (apart : (pool.get slot).prev ≠ slot) :
    bypass pool lvl slot =
      joinPrev (joinNext pool lvl (pool.get slot).prev (pool.get slot).next).1
        (joinNext pool lvl (pool.get slot).prev (pool.get slot).next).2 (pool.get slot).next
          (pool.get slot).prev := by
  have still : (joinNext pool lvl (pool.get slot).prev (pool.get slot).next).1.get slot =
      pool.get slot := by
    rw [getJoinNext, if_neg (fun h => apart h.2.symm)]
  simp only [bypass, still]

theorem bypassCore (pool : OrderPool) (slot : Slot) (lvl : Level) (s : Slot) :
    ((bypass pool lvl slot).1.get s).core = (pool.get s).core := by
  simp only [bypass, joinPrevCore, joinNextCore]

theorem withdrawLinks (lvl : Level) (apart : (pool.get slot).prev ≠ slot) :
    (withdraw (bypass pool lvl slot).1 slot).links =
        (unlink kInvalidSlot pool.links ⟨lvl.head, lvl.tail⟩ slot).1 ∧
      (bypass pool lvl slot).2 = { lvl with
        head := (unlink kInvalidSlot pool.links ⟨lvl.head, lvl.tail⟩ slot).2.head
        tail := (unlink kInvalidSlot pool.links ⟨lvl.head, lvl.tail⟩ slot).2.tail } := by
  constructor
  · simp only [withdraw, linksModify, bypassEq lvl apart, linksJoinPrev, linksJoinNext, unlink]
    rfl
  · simp only [bypassEq lvl apart, joinPrevLevel, joinNextLevel, unlink]
    rfl

theorem neighboursApart
    (queue : Queue kInvalidSlot pool.links (book.ends side level) (front ++ slot :: back)) :
    (pool.get slot).prev ≠ slot ∧ (pool.get slot).next ≠ slot ∧ slot ∉ front ∧ slot ∉ back ∧
      ((pool.get slot).prev ≠ kInvalidSlot → (pool.get slot).prev ∈ front) ∧
      ((pool.get slot).next ≠ kInvalidSlot → (pool.get slot).next ∈ back) := by
  obtain ⟨prevIn, nextIn⟩ := neighbourQueued queue
  have nodup := queue.nodup
  rw [List.nodup_append, List.nodup_cons] at nodup
  have notFront : slot ∉ front := fun h => nodup.2.2 slot h slot (by simp) rfl
  have notBack : slot ∉ back := nodup.2.1.1
  have real : slot ≠ kInvalidSlot := fun h => queue.real (by simp [← h])
  simp only [OrderPool.links] at prevIn nextIn
  refine ⟨fun h => ?_, fun h => ?_, notFront, notBack, fun h => prevIn.resolve_left h,
    fun h => nextIn.resolve_left h⟩
  · rw [h] at prevIn
    exact prevIn.elim real notFront
  · rw [h] at nextIn
    exact nextIn.elim real notBack

theorem removeRestingCore (pool : OrderPool) (book : OrderBook) (slot s : Slot) :
    ((removeResting pool book slot).1.get s).core = (left slot s (pool.get s)).core := by
  simp only [removeResting, withdraw, OrderPool.getModify, left]
  split
  · rename_i same
    have core :=
      bypassCore pool slot (book.levelAt (pool.get slot).side (pool.get slot).levelIndex) slot
    rw [same]
    exact congrArg (fun r => { r with isOpen := false }) core
  · exact bypassCore ..

theorem removeRestingRecords
    (queue : Queue kInvalidSlot pool.links (book.ends side level) (front ++ slot :: back)) :
    Relinked pool (removeResting pool book slot).1 (front ++ slot :: back) (left slot) := by
  obtain ⟨apart, _, _, _, prevIn, nextIn⟩ := neighboursApart queue
  refine ⟨removeRestingSize .., ?_, removeRestingCore pool book slot, fun s outside => ?_⟩
  · simp only [removeResting, withdraw, OrderPool.modify, OrderPool.put, Buffer.sizeWrite, bypass,
      joinPrevChunks, joinNextChunks]
  · simp only [List.mem_append, List.mem_cons, not_or] at outside
    obtain ⟨notFront, notSlot, notBack⟩ := outside
    have notPrev : ¬((pool.get slot).prev ≠ kInvalidSlot ∧ s = (pool.get slot).prev) :=
      fun h => notFront (h.2 ▸ prevIn h.1)
    have notNext : ¬((pool.get slot).next ≠ kInvalidSlot ∧ s = (pool.get slot).next) :=
      fun h => notBack (h.2 ▸ nextIn h.1)
    simp only [removeResting, withdraw, OrderPool.getModify, notSlot, if_false, bypassEq _ apart,
      getJoinPrev, getJoinNext, notPrev, notNext]

theorem vacatedBits (shape : Shape pool book queues) (bounded : level < book.levelCount)
    {lvl : Level} {slots : List Slot} (empty : lvl.orderCount = 0 ↔ slots = [])
    (occupied : queues side level ≠ []) (s : Side) (l : Nat) :
    ((vacate (book.putLevel side (UInt32.ofNat level) lvl) side (UInt32.ofNat level)).bitmap
      s).has l = true ↔
      queues.put side level slots s l ≠ [] := by
  by_cases drained : slots = []
  · rw [bitmapVacate _ (by simpa only [levelAtPutLevel, and_self, if_true] using empty.mpr drained),
      bitmapPutLevel, bitmapPutLevel, drained]
    by_cases same : s = side
    · subst same
      rw [if_pos rfl, LevelBitset.hasClear, levelNarrow bounded]
      by_cases spot : l = level
      · simp [spot]
      · rw [Queues.putOther (fun h => spot h.2), ← shape.bits]
        simp [spot]
    · rw [if_neg same, Queues.putOther (fun h => same h.1)]
      exact shape.bits s l
  · rw [vacate, if_neg (by simpa only [levelAtPutLevel, and_self, if_true] using fun h => drained (empty.mp h)),
      bitmapPutLevel, shape.bits]
    by_cases spot : s = side ∧ l = level
    · obtain ⟨rfl, rfl⟩ := spot
      rw [Queues.putSame]
      simp [drained, occupied]
    · rw [Queues.putOther spot]

theorem vacatedBest (fitted : Fitted book) (shape : Shape pool book queues)
    (bounded : level < book.levelCount) {lvl : Level} {slots : List Slot}
    (empty : lvl.orderCount = 0 ↔ slots = []) (occupied : queues side level ≠ []) (s : Side) :
    LevelBitset.Nearest (fun l => queues.put side level slots s l ≠ []) s.ahead
      ((vacate (book.putLevel side (UInt32.ofNat level) lvl) side (UInt32.ofNat level)).bestIndex
        s) := by
  by_cases same : s = side
  · subst same
    by_cases drained : slots = []
    · have count : ((book.putLevel s (UInt32.ofNat level) lvl).levelAt s
        (UInt32.ofNat level)).orderCount = 0 := by
        simpa only [levelAtPutLevel, and_self, if_true] using empty.mpr drained
      have stored : ∀ l, queues s l ≠ [] → l / 64 < (book.bitmap s).words.size := by
        intro l taken
        rw [fitted.words]
        obtain ⟨other, inQueue⟩ := List.exists_mem_of_ne_nil _ taken
        have := occupiedInside shape inQueue
        omega
      have best := shape.best s
      have bits := shape.bits s
      rw [← bestIndexPutLevel book s s (UInt32.ofNat level) lvl] at best
      rw [← bitmapPutLevel book s s (UInt32.ofNat level) lvl] at bits stored
      have nearest := vacateNearest best bits stored (UInt32.ofNat level) count
      refine LevelBitset.nearestCongr (fun l => ?_) nearest
      rw [levelNarrow bounded, drained]
      by_cases spot : l = level
      · simp [spot]
      · rw [Queues.putOther (fun h => spot h.2)]
        simp [spot]
    · rw [vacate, if_neg (by simpa only [levelAtPutLevel, and_self, if_true] using fun h => drained (empty.mp h)),
        bestIndexPutLevel]
      refine LevelBitset.nearestCongr (fun l => ?_) (shape.best s)
      by_cases spot : l = level
      · subst spot
        rw [Queues.putSame]
        simp [drained, occupied]
      · rw [Queues.putOther (fun h => spot h.2)]
  · rw [vacateOther _ same, bestIndexPutLevel]
    refine LevelBitset.nearestCongr (fun l => ?_) (shape.best s)
    rw [Queues.putOther (fun h => same h.1)]

theorem removeRestingShape (fitted : Fitted book) (shape : Shape pool book queues)
    (small : pool.size < 2 ^ 32) (here : queues side level = front ++ slot :: back) :
    Shape (removeResting pool book slot).1 (removeResting pool book slot).2
      (queues.put side level (front ++ back)) := by
  have member : slot ∈ queues side level := by simp [here]
  have bounded := occupiedInside shape member
  have home := shape.home side level slot member
  have queue := shape.queue side level bounded
  rw [here] at queue
  obtain ⟨apart, _, notFront, notBack, _, _⟩ := neighboursApart queue
  have records := removeRestingRecords queue
  have links := withdrawLinks (book.levelAt side (UInt32.ofNat level)) apart
  have openQty : ∀ s, ((removeResting pool book slot).1.get s).openQty = (pool.get s).openQty := by
    intro s
    have := congrArg OrderRecord.openQty (records.core s)
    simp only [left] at this
    split at this <;> exact this
  obtain ⟨lvl, lvlEq⟩ : ∃ lvl, lvl = { book.levelAt side (UInt32.ofNat level) with
      head := (unlink kInvalidSlot pool.links (book.ends side level) slot).2.head
      tail := (unlink kInvalidSlot pool.links (book.ends side level) slot).2.tail
      totalQty := (book.levelAt side (UInt32.ofNat level)).totalQty - (pool.get slot).openQty
      orderCount := (book.levelAt side (UInt32.ofNat level)).orderCount - 1 } := ⟨_, rfl⟩
  have pool' : (removeResting pool book slot).1 =
      withdraw (bypass pool (book.levelAt side (UInt32.ofNat level)) slot).1 slot := by
    simp only [removeResting, home.side, home.levelIndex]
  have book' : (removeResting pool book slot).2 =
      vacate (book.putLevel side (UInt32.ofNat level) lvl) side (UInt32.ofNat level) := by
    have total := congrArg OrderRecord.openQty
      (bypassCore pool slot (book.levelAt side (UInt32.ofNat level)) slot)
    simp only [OrderRecord.core] at total
    simp only [removeResting, home.side, home.levelIndex, total, links.2, lvlEq, ends]
  have level' : (removeResting pool book slot).2.levelAt side (UInt32.ofNat level) = lvl := by
    simp only [book', levelAtVacate, levelAtPutLevel, and_self, if_true]
  have exact : lvl.orderCount = UInt32.ofNat (front ++ back).length := by
    have before := shape.count side level bounded
    rw [here] at before
    rw [lvlEq]
    simp only [before, List.length_append, List.length_cons, ← Nat.add_assoc, UInt32.ofNat_add]
    exact UInt32.add_sub_cancel ..
  have held : ∀ s ∈ front ++ back, s ∈ queues side level ∧ s ≠ slot := by
    intro s rest
    rw [here]
    rcases List.mem_append.mp rest with inFront | inBack
    · exact ⟨by simp [inFront], fun same => notFront (same ▸ inFront)⟩
    · exact ⟨by simp [inBack], fun same => notBack (same ▸ inBack)⟩
  have short : (front ++ back).length < 2 ^ 32 := by
    have nodup : (front ++ back).Nodup := (unlinkQueue queue).nodup
    have := queueShort nodup (fun s rest => (shape.home side level s (held s rest).1).inside)
    omega
  have empty : lvl.orderCount = 0 ↔ front ++ back = [] := by
    rw [exact, ← UInt32.toNat_inj, WordBits.toNatOfNat short, ← List.length_eq_zero_iff]
    rfl
  refine shapeChange shape ⟨bounded, removeRestingFrame .., records.size, fun s i other => ?_,
    fun s outside _ => ?_,
    fun s l other there rest => ?_, ?_, fun s rest => ?_, ?_, ?_, fun s l => ?_, fun s => ?_⟩
  · simp only [book', levelAtVacate, levelAtPutLevel, other, if_false]
  · exact records.kept s (by rw [← here]; exact outside)
  · exact oneQueue shape (held other rest).1 there
  · have joined : (removeResting pool book slot).2.ends side level =
        (unlink kInvalidSlot pool.links (book.ends side level) slot).2 := by
      rw [ends, level', lvlEq]
    rw [joined, pool', links.1]
    exact unlinkQueue queue
  · obtain ⟨old, other⟩ := held s rest
    have same : ((removeResting pool book slot).1.get s).core = (pool.get s).core := by
      rw [records.core, left, if_neg other]
    exact homeFrame (shape.home side level s old) (Nat.le_of_eq records.size.symm) same
      (removeRestingFrame ..)
  · rw [level', exact]
  · have before := shape.total side level bounded
    rw [here] at before
    rw [level', lvlEq]
    simp only [before, OrderPool.openIn, openQty, List.map_append, List.map_cons, List.sum_append,
      List.sum_cons, UInt32.ofNat_add, UInt32.ofNat_toNat]
    rw [UInt32.add_comm (pool.get slot).openQty, ← UInt32.add_assoc, UInt32.add_sub_cancel]
  · rw [book']
    exact vacatedBits shape bounded empty (List.ne_nil_of_mem member) s l
  · rw [book']
    exact vacatedBest fitted shape bounded empty (List.ne_nil_of_mem member) s

end Remove

section Replace
variable {pool : OrderPool} {book : OrderBook} {queues : Queues} {side : Side} {level : Nat}
  {oldSlot newSlot : Slot} {front back : List Slot}

def succeeded (pool : OrderPool) (oldSlot newSlot s : Slot) (rec : OrderRecord) : OrderRecord :=
  if s = oldSlot then { rec with isOpen := false }
  else if s = newSlot then
    { rec with
      side := (pool.get oldSlot).side, price := (pool.get oldSlot).price,
      levelIndex := (pool.get oldSlot).levelIndex, isOpen := true }
  else rec

def successor (pool : OrderPool) (oldSlot newSlot : Slot) : OrderPool :=
  pool.modify newSlot (fun rec =>
    { rec with
      side := (pool.get oldSlot).side, price := (pool.get oldSlot).price,
      levelIndex := (pool.get oldSlot).levelIndex, isOpen := true,
      prev := (pool.get oldSlot).prev, next := (pool.get oldSlot).next })

theorem replaceInPlaceEq : replaceInPlace pool book oldSlot newSlot =
    let side := (pool.get oldSlot).side
    let idx := (pool.get oldSlot).levelIndex
    let joined := splice (successor pool oldSlot newSlot) (book.levelAt side idx) oldSlot newSlot
    (withdraw joined.1 oldSlot, book.putLevel side idx { joined.2 with
      totalQty := joined.2.totalQty - (joined.1.get oldSlot).openQty +
        (joined.1.get newSlot).openQty }) := rfl

theorem spliceEq (lvl : Level) (apart : (pool.get oldSlot).prev ≠ oldSlot)
    (distinct : oldSlot ≠ newSlot) :
    splice (successor pool oldSlot newSlot) lvl oldSlot newSlot =
      joinPrev (joinNext (successor pool oldSlot newSlot) lvl (pool.get oldSlot).prev newSlot).1
        (joinNext (successor pool oldSlot newSlot) lvl (pool.get oldSlot).prev newSlot).2
        (pool.get oldSlot).next newSlot := by
  have same : (successor pool oldSlot newSlot).get oldSlot = pool.get oldSlot :=
    OrderPool.getModifyOther _ _ distinct
  have still : (joinNext (successor pool oldSlot newSlot) lvl (pool.get oldSlot).prev
    newSlot).1.get oldSlot =
      pool.get oldSlot := by
    rw [getJoinNext, if_neg (fun h => apart h.2.symm), same]
  simp only [splice, same, still]

theorem spliceCore (pool : OrderPool) (oldSlot newSlot : Slot) (lvl : Level) (s : Slot) :
    ((splice pool lvl oldSlot newSlot).1.get s).core = (pool.get s).core := by
  simp only [splice, joinPrevCore, joinNextCore]

theorem spliceLinks (lvl : Level) (apart : (pool.get oldSlot).prev ≠ oldSlot)
    (distinct : oldSlot ≠ newSlot) :
    (withdraw (splice (successor pool oldSlot newSlot) lvl oldSlot newSlot).1 oldSlot).links =
        (substitute kInvalidSlot pool.links ⟨lvl.head, lvl.tail⟩ oldSlot newSlot).1 ∧
      (splice (successor pool oldSlot newSlot) lvl oldSlot newSlot).2 = { lvl with
        head := (substitute kInvalidSlot pool.links ⟨lvl.head, lvl.tail⟩ oldSlot newSlot).2.head
        tail :=
          (substitute kInvalidSlot pool.links ⟨lvl.head, lvl.tail⟩ oldSlot newSlot).2.tail } := by
  constructor
  · rw [withdraw, spliceEq lvl apart distinct]
    simp only [linksModify, linksJoinPrev, linksJoinNext, successor, substitute]
    rfl
  · simp only [spliceEq lvl apart distinct, joinPrevLevel, joinNextLevel, substitute]
    rfl

theorem replaceInPlaceRecords (distinct : oldSlot ≠ newSlot)
    (queue : Queue kInvalidSlot pool.links (book.ends side level) (front ++ oldSlot :: back)) :
    Relinked pool (replaceInPlace pool book oldSlot newSlot).1 (newSlot :: front ++ oldSlot :: back)
      (succeeded pool oldSlot newSlot) := by
  obtain ⟨apart, _, _, _, prevIn, nextIn⟩ := neighboursApart queue
  refine ⟨replaceInPlaceSize .., ?_, fun s => ?_, fun s outside => ?_⟩
  · simp only [replaceInPlaceEq, withdraw, OrderPool.modify, OrderPool.put, Buffer.sizeWrite,
      splice, joinPrevChunks, joinNextChunks, successor]
  · simp only [replaceInPlaceEq, withdraw, OrderPool.getModify, succeeded]
    split
    · rename_i same
      have core := spliceCore (successor pool oldSlot newSlot) oldSlot newSlot
        (book.levelAt (pool.get oldSlot).side (pool.get oldSlot).levelIndex) oldSlot
      rw [successor, OrderPool.getModifyOther _ _ distinct] at core
      rw [same]
      exact congrArg (fun r => { r with isOpen := false }) core
    · refine (spliceCore ..).trans ?_
      rw [successor, OrderPool.getModify]
      split
      · rename_i same
        rw [same]
        rfl
      · rfl
  · simp only [List.cons_append, List.mem_cons, List.mem_append, not_or] at outside
    obtain ⟨notNew, notFront, notOld, notBack⟩ := outside
    have notPrev : ¬((pool.get oldSlot).prev ≠ kInvalidSlot ∧ s = (pool.get oldSlot).prev) :=
      fun h => notFront (h.2 ▸ prevIn h.1)
    have notNext : ¬((pool.get oldSlot).next ≠ kInvalidSlot ∧ s = (pool.get oldSlot).next) :=
      fun h => notBack (h.2 ▸ nextIn h.1)
    simp only [replaceInPlaceEq, withdraw, OrderPool.getModify, notOld, if_false,
      spliceEq _ apart distinct, getJoinPrev, getJoinNext, notPrev, notNext]
    exact OrderPool.getModifyOther _ _ notNew

theorem replaceInPlaceShape (shape : Shape pool book queues)
    (here : queues side level = front ++ oldSlot :: back) (inside : newSlot.toNat < pool.size)
    (real : newSlot ≠ kInvalidSlot) (idle : (pool.get newSlot).isOpen = false)
    (owner : (pool.get newSlot).instrumentId = book.instrumentId) :
    Shape (replaceInPlace pool book oldSlot newSlot).1 (replaceInPlace pool book oldSlot newSlot).2
      (queues.put side level (front ++ newSlot :: back)) := by
  have member : oldSlot ∈ queues side level := by simp [here]
  have bounded := occupiedInside shape member
  have home := shape.home side level oldSlot member
  have fresh : ∀ s l, newSlot ∉ queues s l := by
    intro s l new
    have := (shape.home s l newSlot new).isOpen
    rw [idle] at this
    contradiction
  have distinct : oldSlot ≠ newSlot := fun same => fresh side level (same ▸ member)
  have queue := shape.queue side level bounded
  rw [here] at queue
  obtain ⟨apart, _, notFront, notBack, _, _⟩ := neighboursApart queue
  have notQueued : newSlot ∉ front ++ oldSlot :: back := by
    rw [← here]
    exact fresh side level
  have records := replaceInPlaceRecords distinct queue
  have links := spliceLinks (book.levelAt side (UInt32.ofNat level)) apart distinct
  have openQty : ∀ s, ((replaceInPlace pool book oldSlot newSlot).1.get s).openQty =
      (pool.get s).openQty := by
    intro s
    have := congrArg OrderRecord.openQty (records.core s)
    simp only [succeeded] at this
    split at this
    · exact this
    · split at this <;> exact this
  obtain ⟨lvl, lvlEq⟩ : ∃ lvl, lvl = { book.levelAt side (UInt32.ofNat level) with
      head := (substitute kInvalidSlot pool.links (book.ends side level) oldSlot newSlot).2.head
      tail := (substitute kInvalidSlot pool.links (book.ends side level) oldSlot newSlot).2.tail
      totalQty := (book.levelAt side (UInt32.ofNat level)).totalQty - (pool.get oldSlot).openQty +
        (pool.get newSlot).openQty } := ⟨_, rfl⟩
  have pool' : (replaceInPlace pool book oldSlot newSlot).1 =
      withdraw (splice (successor pool oldSlot newSlot)
      (book.levelAt side (UInt32.ofNat level)) oldSlot newSlot).1 oldSlot := by
    simp only [replaceInPlaceEq, home.side, home.levelIndex]
  have book' : (replaceInPlace pool book oldSlot newSlot).2 =
      book.putLevel side (UInt32.ofNat level) lvl := by
    have spliced : ∀ s, ((splice (successor pool oldSlot newSlot)
      (book.levelAt side (UInt32.ofNat level))
        oldSlot newSlot).1.get s).openQty = (pool.get s).openQty := by
      intro s
      have core := congrArg OrderRecord.openQty (spliceCore (successor pool oldSlot newSlot)
        oldSlot newSlot (book.levelAt side (UInt32.ofNat level)) s)
      simp only [OrderRecord.core, successor, OrderPool.getModify] at core
      refine core.trans ?_
      split
      · rename_i same
        rw [same]
      · rfl
    simp only [replaceInPlaceEq, home.side, home.levelIndex, spliced, links.2, lvlEq, ends]
  have level' : (replaceInPlace pool book oldSlot newSlot).2.levelAt side
      (UInt32.ofNat level) = lvl := by
    simp only [book', levelAtPutLevel, and_self, if_true]
  have nonempty : ∀ s l, queues.put side level (front ++ newSlot :: back) s l ≠ [] ↔
      queues s l ≠ [] := by
    intro s l
    by_cases spot : s = side ∧ l = level
    · obtain ⟨rfl, rfl⟩ := spot
      rw [Queues.putSame, here]
      simp
    · rw [Queues.putOther spot]
  have held : ∀ s ∈ front ++ newSlot :: back, s = newSlot ∨
      (s ∈ queues side level ∧ s ≠ oldSlot ∧ s ≠ newSlot) := by
    intro s rest
    by_cases same : s = newSlot
    · exact .inl same
    · refine .inr ?_
      rw [here]
      rcases List.mem_append.mp rest with inFront | inBack
      · exact ⟨by simp [inFront], fun old => notFront (old ▸ inFront), same⟩
      · have inBack := (List.mem_cons.mp inBack).resolve_left same
        exact ⟨by simp [inBack], fun old => notBack (old ▸ inBack), same⟩
  refine shapeChange shape ⟨bounded, replaceInPlaceFrame .., records.size, fun s i other => ?_,
    fun s outside new => ?_, fun s l other there rest => ?_, ?_, fun s rest => ?_, ?_, ?_,
    fun s l => ?_, fun s => ?_⟩
  · simp only [book', levelAtPutLevel, other, if_false]
  · refine records.kept s (fun listed => ?_)
    rw [List.cons_append, List.mem_cons, ← here] at listed
    rcases listed with rfl | old
    · simp at new
    · exact outside old
  · rcases held other rest with rfl | ⟨old, _, _⟩
    · exact absurd there (fresh s l)
    · exact oneQueue shape old there
  · have joined : (replaceInPlace pool book oldSlot newSlot).2.ends side level =
        (substitute kInvalidSlot pool.links (book.ends side level) oldSlot newSlot).2 := by
      rw [ends, level', lvlEq]
    rw [joined, pool', links.1]
    exact substituteQueue queue notQueued real
  · rcases held s rest with rfl | ⟨old, notOld, notNew⟩
    · have core := records.core s
      rw [succeeded, if_neg (Ne.symm distinct), if_pos rfl] at core
      refine ⟨by rw [records.size]; exact inside, congrArg OrderRecord.isOpen core, ?_, ?_, ?_, ?_⟩
      · exact (congrArg OrderRecord.side core).trans home.side
      · exact (congrArg OrderRecord.instrumentId core).trans
          (owner.trans (replaceInPlaceFrame ..).instrumentId.symm)
      · exact (congrArg OrderRecord.levelIndex core).trans home.levelIndex
      · refine (congrArg OrderRecord.price core).trans (home.price.trans ?_)
        rw [indexToPrice, indexToPrice, (replaceInPlaceFrame pool book oldSlot s).ladder]
    · have same : ((replaceInPlace pool book oldSlot newSlot).1.get s).core =
          (pool.get s).core := by
        rw [records.core, succeeded, if_neg notOld, if_neg notNew]
      exact homeFrame (shape.home side level s old) (Nat.le_of_eq records.size.symm) same
        (replaceInPlaceFrame ..)
  · rw [level', lvlEq]
    simp only [shape.count side level bounded, here, List.length_append, List.length_cons]
  · have before := shape.total side level bounded
    rw [here] at before
    rw [level', lvlEq]
    simp only [before, OrderPool.openIn, openQty, List.map_append, List.map_cons, List.sum_append,
      List.sum_cons, UInt32.ofNat_add, UInt32.ofNat_toNat]
    rw [UInt32.add_comm (pool.get oldSlot).openQty, ← UInt32.add_assoc, UInt32.add_sub_cancel,
      UInt32.add_assoc, UInt32.add_comm _ (pool.get newSlot).openQty]
  · rw [book', bitmapPutLevel, nonempty]
    exact shape.bits s l
  · rw [book', bestIndexPutLevel]
    exact LevelBitset.nearestCongr (fun l => (nonempty s l).symm) (shape.best s)

end Replace

section Fill
variable {pool : OrderPool} {book : OrderBook} {queues : Queues} {side : Side} {level : Nat}
  {slot : Slot}

theorem fillShape (shape : Shape pool book queues) (member : slot ∈ queues side level)
    {qty : Quantity} (enough : qty.toNat ≤ (pool.get slot).openQty.toNat) :
    Shape (pool.fill slot qty) (book.putLevel side (UInt32.ofNat level)
      { book.levelAt side (UInt32.ofNat level) with
        totalQty := (book.levelAt side (UInt32.ofNat level)).totalQty - qty }) queues := by
  have bounded := occupiedInside shape member
  have core : ∀ s, (pool.fill slot qty).get s = if s = slot then
      { pool.get slot with
        openQty := (pool.get slot).openQty - qty, filledQty := (pool.get slot).filledQty + qty }
      else pool.get s := fun s => OrderPool.getModify ..
  have links : (pool.fill slot qty).links = pool.links := by
    rw [OrderPool.fill, linksModify]
    simp only [OrderPool.links, Function.update_eq_self]
  rw [← Queues.putSelf (rfl : queues side level = queues side level)]
  refine shapeChange shape ⟨bounded, putLevelFrame .., rfl, fun s i other => ?_,
    fun s outside _ => ?_,
    fun s l other there here => oneQueue shape here there, ?_, fun s here => ?_, ?_, ?_,
    fun s l => ?_, fun s => ?_⟩
  · rw [levelAtPutLevel, if_neg other]
  · rw [core, if_neg (by rintro rfl; exact outside member)]
  · rw [links, ends, levelAtPutLevel, if_pos ⟨rfl, rfl⟩]
    exact shape.queue side level bounded
  · obtain ⟨inside, isOpen, own, owner, index, price⟩ := shape.home side level s here
    have same : ∀ {β : Type} (f : OrderRecord → β),
        (∀ r q g, f { r with openQty := q, filledQty := g } = f r) →
        f ((pool.fill slot qty).get s) = f (pool.get s) := by
      intro β f blind
      rw [core]
      split
      · rename_i spot
        rw [spot]
        exact blind ..
      · rfl
    refine ⟨inside, ?_, ?_, ?_, ?_, ?_⟩
    · exact (same OrderRecord.isOpen fun _ _ _ => rfl).trans isOpen
    · exact (same OrderRecord.side fun _ _ _ => rfl).trans own
    · exact (same OrderRecord.instrumentId fun _ _ _ => rfl).trans
        (owner.trans (putLevelFrame ..).instrumentId.symm)
    · exact (same OrderRecord.levelIndex fun _ _ _ => rfl).trans index
    · refine (same OrderRecord.price fun _ _ _ => rfl).trans (price.trans ?_)
      rw [indexToPrice, indexToPrice, (putLevelFrame ..).ladder]
  · rw [levelAtPutLevel, if_pos ⟨rfl, rfl⟩]
    exact shape.count side level bounded
  · obtain ⟨front, back, split⟩ := List.append_of_mem member
    have nodup := (shape.queue side level bounded).nodup
    rw [split, List.nodup_append, List.nodup_cons] at nodup
    have apart : ∀ s ∈ front ++ back, s ≠ slot := by
      intro s rest same
      rcases List.mem_append.mp rest with inFront | inBack
      · exact nodup.2.2 s inFront slot (by simp) same
      · exact nodup.2.1.1 (same ▸ inBack)
    have rest : ∀ slots, (∀ s ∈ slots, s ≠ slot) →
        OrderPool.openIn (pool.fill slot qty) slots = pool.openIn slots := by
      intro slots others
      exact OrderPool.openInCongr (fun s listed => by rw [core, if_neg (others s listed)])
    have own : ((pool.fill slot qty).get slot).openQty.toNat =
        (pool.get slot).openQty.toNat - qty.toNat := by
      rw [core, if_pos rfl]
      exact UInt32.toNat_sub_of_le _ _ (UInt32.le_iff_toNat_le.mpr enough)
    have before : ∀ p : OrderPool, p.openIn (queues side level) =
        p.openIn front + p.openIn back + (p.get slot).openQty.toNat := by
      intro p
      rw [split]
      simp only [OrderPool.openIn, List.map_append, List.map_cons, List.sum_append, List.sum_cons]
      omega
    have balance : pool.openIn (queues side level) =
        OrderPool.openIn (pool.fill slot qty) (queues side level) + qty.toNat := by
      rw [before, before, own, rest front (fun s h => apart s (by simp [h])),
        rest back (fun s h => apart s (by simp [h]))]
      omega
    rw [levelAtPutLevel, if_pos ⟨rfl, rfl⟩]
    simp only [shape.total side level bounded, balance, UInt32.ofNat_add, UInt32.ofNat_toNat,
      UInt32.add_sub_cancel]
  · rw [Queues.putSelf rfl, bitmapPutLevel]
    exact shape.bits s l
  · rw [Queues.putSelf rfl, bestIndexPutLevel]
    exact shape.best s

end Fill

end OrderBook
end Xmatch
