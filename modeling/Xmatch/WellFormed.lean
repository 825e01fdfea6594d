import Xmatch.Resting

/-! Every state that any calls leave behind is well formed: the lists reached from the
level heads hold exactly the open records, and levels, bitmaps and best indices agree. -/
namespace Xmatch
namespace Engine
open OrderBook LinkedQueue

def follow (pool : OrderPool) : Nat → Slot → List Slot
  | 0, _ => []
  | fuel + 1, slot =>
    if slot = kInvalidSlot then [] else slot :: follow pool fuel (pool.get slot).next

/- The list of a level; it cannot be longer than the pool. -/
def levelSlots (engine : Engine) (b : Nat) (side : Side) (i : Nat) : List Slot :=
  follow engine.pool engine.pool.size ((engine.books.read b).levelAt side (UInt32.ofNat i)).head

structure Placed (engine : Engine) (b : Nat) (side : Side) (i : Nat) (record : OrderRecord) :
    Prop where
  isOpen : record.isOpen = true
  openQty : 0 < record.openQty
  side : record.side = side
  instrumentId : record.instrumentId = (engine.books.read b).instrumentId
  levelIndex : record.levelIndex = UInt32.ofNat i
  price : record.price = (engine.books.read b).indexToPrice (UInt32.ofNat i)

structure LevelWellFormed (engine : Engine) (b : Nat) (side : Side) (i : Nat) : Prop where
  queue : Queue kInvalidSlot engine.pool.links ((engine.books.read b).ends side i)
    (levelSlots engine b side i)
  placed : ∀ slot ∈ levelSlots engine b side i,
    slot.toNat < engine.pool.size ∧ Placed engine b side i (engine.pool.get slot)
  orderCount : ((engine.books.read b).levelAt side (UInt32.ofNat i)).orderCount.toNat =
    (levelSlots engine b side i).length
  totalQty : ((engine.books.read b).levelAt side (UInt32.ofNat i)).totalQty.toNat =
    engine.pool.openIn (levelSlots engine b side i) % 2 ^ 32
  bit : ((engine.books.read b).bitmap side).has i = true ↔ levelSlots engine b side i ≠ []

structure BestWellFormed (book : OrderBook) (side : Side) : Prop where
  none : book.bestIndex side = -1 ↔ ∀ i < book.levelCount, (book.bitmap side).has i = false
  some : book.bestIndex side ≠ -1 → ∃ i < book.levelCount, book.bestIndex side = (i : Int) ∧
    (book.bitmap side).has i = true ∧ ∀ j < book.levelCount, (book.bitmap side).has j = true →
    ¬side.ahead j i

structure WellFormed (engine : Engine) : Prop where
  levels : ∀ b < engine.books.size, ∀ side, ∀ i < (engine.books.read b).levelCount,
    LevelWellFormed engine b side i
  best : ∀ b < engine.books.size, ∀ side, BestWellFormed (engine.books.read b) side
  housed : ∀ slot : Slot, slot.toNat < engine.pool.size → (engine.pool.get slot).isOpen = true →
    ∃! place : Nat × Side × Nat, place.1 < engine.books.size ∧
      place.2.2 < (engine.books.read place.1).levelCount ∧
      slot ∈ levelSlots engine place.1 place.2.1 place.2.2

section Following
variable {pool : OrderPool} {slots : List Slot} {before : Slot}

theorem followChain (chain : Chain pool.links kInvalidSlot before slots)
    (real : kInvalidSlot ∉ slots) {fuel : Nat} (enough : slots.length ≤ fuel) :
    follow pool fuel (slots.headD kInvalidSlot) = slots := by
  induction slots generalizing before fuel with
  | nil => cases fuel <;> simp [follow]
  | cons slot rest ih =>
    obtain ⟨_, forth, later⟩ := chain
    obtain ⟨fuel, rfl⟩ : ∃ n, fuel = n + 1 :=
      ⟨fuel - 1, by simp only [List.length_cons] at enough; omega⟩
    have notNil : slot ≠ kInvalidSlot := fun same => real (same ▸ List.mem_cons_self)
    have next : (pool.get slot).next = rest.headD kInvalidSlot := forth
    have ends := ih later (fun member => real (List.mem_cons_of_mem _ member))
        (Nat.le_of_succ_le_succ enough)
    rw [List.headD_cons, follow, if_neg notNil, next, ends]

end Following

section Represented
variable {engine : Engine} {queues : Nat → Queues} {venue : Venue} {b i : Nat} {side : Side}

theorem levelSlotsEqQueue (rep : Rep engine queues) (inside : b < engine.books.size)
    (level : i < (engine.books.read b).levelCount) :
    levelSlots engine b side i = queues b side i := by
  have shape := rep.shape b inside
  have queue := shape.queue side i level
  have short := queueShort queue.nodup (fun slot member => (shape.home side i slot member).inside)
  have head : ((engine.books.read b).levelAt side (UInt32.ofNat i)).head =
      (queues b side i).headD kInvalidSlot :=
    queue.head
  rw [levelSlots, head]
  exact followChain queue.chain queue.real short

theorem levelWellFormed (rep : Rep engine queues) (live : Live engine queues)
    (inside : b < engine.books.size) (level : i < (engine.books.read b).levelCount) :
    LevelWellFormed engine b side i := by
  have shape := rep.shape b inside
  have queue := shape.queue side i level
  have short := queueShort queue.nodup (fun slot member => (shape.home side i slot member).inside)
  have listed := @levelSlotsEqQueue engine queues b i side rep inside level
  refine ⟨?_, fun slot member => ?_, ?_, ?_, ?_⟩
  · rw [listed]
    exact queue
  · rw [listed] at member
    have home := shape.home side i slot member
    have left : 0 < (engine.pool.get slot).openQty :=
      UInt32.lt_iff_toNat_lt.mpr (by simpa using (live b inside side i slot member).left)
    exact ⟨home.inside, home.isOpen, left, home.side, home.instrumentId, home.levelIndex,
      home.price⟩
  · have narrow := poolSmall rep
    rw [listed, shape.count side i level]
    exact WordBits.toNatOfNat (Nat.lt_of_le_of_lt short narrow)
  · rw [listed, shape.total side i level]
    exact UInt32.toNat_ofNat'
  · rw [listed]
    exact shape.bits side i

theorem bestWellFormed (rep : Rep engine queues) (inside : b < engine.books.size) (side : Side) :
    BestWellFormed (engine.books.read b) side := by
  have shape := rep.shape b inside
  have best := shape.best side
  have occupied : ∀ i, queues b side i ≠ [] → i < (engine.books.read b).levelCount := by
    intro i taken
    by_contra past
    exact taken (shape.beyond side i (Nat.not_lt.mp past))
  refine ⟨⟨fun none i _ => ?_, fun empty => ?_⟩, fun real => ?_⟩
  · have nothing := (best.none (by omega)).2 i
    exact Bool.eq_false_iff.mpr (fun marked => nothing ((shape.bits side i).mp marked))
  · rcases Int.lt_or_le ((engine.books.read b).bestIndex side) 0 with none | some
    · exact (best.none none).1
    · obtain ⟨i, same⟩ := Int.eq_ofNat_of_zero_le some
      have taken := (best.some i same).1
      have marked := (shape.bits side i).mpr taken
      rw [empty i (occupied i taken)] at marked
      contradiction
  · rcases Int.lt_or_le ((engine.books.read b).bestIndex side) 0 with none | some
    · exact absurd (best.none none).1 real
    · obtain ⟨i, same⟩ := Int.eq_ofNat_of_zero_le some
      obtain ⟨taken, first⟩ := best.some i same
      exact ⟨i, occupied i taken, same, (shape.bits side i).mpr taken,
        fun j _ marked => first j ((shape.bits side j).mp marked)⟩

theorem simWellFormed (sim : Sim engine venue) : WellFormed engine := by
  obtain ⟨queues, rep, live, _⟩ := sim
  refine ⟨fun b inside side i level => levelWellFormed rep live inside level, fun b inside side =>
    bestWellFormed rep inside side, fun slot real isOpen => ?_⟩
  obtain ⟨b, inside, side, i, member⟩ := rep.housed slot real isOpen
  have level := occupiedInside (rep.shape b inside) member
  refine ⟨(b, side, i), ⟨inside, level, ?_⟩, ?_⟩
  · rwa [levelSlotsEqQueue rep inside level]
  · rintro ⟨c, s, l⟩ ⟨insideC, levelC, there⟩
    rw [levelSlotsEqQueue rep insideC levelC] at there
    have sameBook := oneBook rep inside insideC member there
    subst sameBook
    obtain ⟨rfl, rfl⟩ := oneQueue (rep.shape b inside) member there
    rfl

end Represented

theorem bookWellFormedEverywhere (actions : List Action) (roomy : Roomy (after actions)) :
    WellFormed (after actions) ∧
      ∀ env request, WellFormed (call env request (after actions)).engine := by
  obtain ⟨venue, sim, -⟩ := reached keptTrivial actions roomy
  refine ⟨simWellFormed sim, fun env request => ?_⟩
  obtain ⟨venue', outcome⟩ := callOutcome sim roomy.slots env request
  exact simWellFormed (outcomeSim outcome)

theorem restingSellWellFormed :
    WellFormed (after (calmRun [⟨7, 100000, 1000⟩]
      [.submit ⟨1, 7, .sell, .limit, .day, 100000, 5⟩])) ∧
      ∀ env request, WellFormed (call env request
        (after (calmRun [⟨7, 100000, 1000⟩]
          [.submit ⟨1, 7, .sell, .limit, .day, 100000, 5⟩]))).engine :=
  bookWellFormedEverywhere _ (roomyOf (by decide +kernel) (by decide +kernel))

end Engine
end Xmatch
