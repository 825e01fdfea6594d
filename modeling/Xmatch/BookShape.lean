import Xmatch.OrderBook

/-! The representation invariant of a book: for each side and level a queue of slots, and
how the links, the levels, the bitmaps and the cached best indices stand for the queues. -/
namespace Xmatch
open LinkedQueue

abbrev Queues := Side → Nat → List Slot

def Queues.put (queues : Queues) (side : Side) (level : Nat) (slots : List Slot) : Queues :=
  fun s l => if s = side ∧ l = level then slots else queues s l

@[simp] theorem Queues.putSame (queues : Queues) (side : Side) (level : Nat) (slots : List Slot) :
    queues.put side level slots side level = slots := by simp [Queues.put]

theorem Queues.putOther {queues : Queues} {side s : Side} {level l : Nat} {slots : List Slot}
    (other : ¬(s = side ∧ l = level)) : queues.put side level slots s l = queues s l := if_neg other

theorem Queues.putSelf {queues : Queues} {side : Side} {level : Nat} {slots : List Slot}
    (same : queues side level = slots) : queues.put side level slots = queues := by
  funext s l
  by_cases here : s = side ∧ l = level
  · obtain ⟨rfl, rfl⟩ := here
    rw [putSame, same]
  · rw [putOther here]

def Side.ahead : Side → Nat → Nat → Prop
  | .buy, a, b => b < a
  | .sell, a, b => a < b

theorem Side.aheadAntisymm {side : Side} {a b : Nat} (ab : ¬side.ahead a b) (ba : ¬side.ahead b a) :
    a = b := by
  cases side <;> simp only [Side.ahead] at ab ba <;> omega

theorem Side.aheadTrans {side : Side} {a b c : Nat} (ab : side.ahead a b) (bc : side.ahead b c) :
    side.ahead a c := by
  cases side <;> simp only [Side.ahead] at ab bc ⊢ <;> omega

theorem Side.aheadIrrefl (side : Side) (a : Nat) : ¬side.ahead a a := by
  cases side <;> simp [Side.ahead]

def OrderRecord.core (record : OrderRecord) : OrderRecord :=
  { record with prev := kInvalidSlot, next := kInvalidSlot }

theorem coreField {β : Type} (f : OrderRecord → β) (blind : ∀ record, f record.core = f record)
    {record record' : OrderRecord} (same : record'.core = record.core) : f record' = f record := by
  rw [← blind, same, blind]

namespace OrderBook

def levelCount (book : OrderBook) : Nat := book.ladder.size.toNat

def ends (book : OrderBook) (side : Side) (level : Nat) : Ends Slot :=
  ⟨(book.levelAt side (UInt32.ofNat level)).head, (book.levelAt side (UInt32.ofNat level)).tail⟩

/- What `configure` leaves: a numbered ladder, and arrays of its size. -/
structure Fitted (book : OrderBook) : Prop where
  numbered : PriceLadder.Numbered kTickSchedule book.bandLo book.bandHi book.ladder
  levels : ∀ side, (book.levels side).size = book.levelCount
  words : ∀ side, (book.bitmap side).words.size = (book.levelCount + 63) / 64

theorem fittedFrame {book book' : OrderBook} (fitted : Fitted book) (frame : SameFrame book book') :
    Fitted book' := by
  have count : book'.levelCount = book.levelCount := by rw [levelCount, levelCount, frame.ladder]
  refine ⟨?_, fun side => ?_, fun side => ?_⟩
  · rw [bandLo, bandHi, frame.ladder]
    exact fitted.numbered
  · rw [frame.levels, count, fitted.levels]
  · rw [frame.words, count, fitted.words]

structure Home (pool : OrderPool) (book : OrderBook) (side : Side) (level : Nat) (slot : Slot) :
    Prop where
  inside : slot.toNat < pool.size
  isOpen : (pool.get slot).isOpen = true
  side : (pool.get slot).side = side
  instrumentId : (pool.get slot).instrumentId = book.instrumentId
  levelIndex : (pool.get slot).levelIndex = UInt32.ofNat level
  price : (pool.get slot).price = book.indexToPrice (UInt32.ofNat level)

structure Shape (pool : OrderPool) (book : OrderBook) (queues : Queues) : Prop where
  queue : ∀ side level, level < book.levelCount →
    Queue kInvalidSlot pool.links (book.ends side level) (queues side level)
  beyond : ∀ side level, book.levelCount ≤ level → queues side level = []
  home : ∀ side level slot, slot ∈ queues side level → Home pool book side level slot
  count : ∀ side level, level < book.levelCount →
    (book.levelAt side (UInt32.ofNat level)).orderCount = UInt32.ofNat (queues side level).length
  total : ∀ side level, level < book.levelCount →
    (book.levelAt side (UInt32.ofNat level)).totalQty =
    UInt32.ofNat (pool.openIn (queues side level))
  bits : ∀ side level, (book.bitmap side).has level = true ↔ queues side level ≠ []
  best : ∀ side, LevelBitset.Nearest (fun level => queues side level ≠ []) side.ahead
    (book.bestIndex side)

section Reading
variable {pool : OrderPool} {book : OrderBook} {queues : Queues} {side other : Side} {level l : Nat}
  {slot : Slot}

theorem levelNarrow (inside : level < book.levelCount) : (UInt32.ofNat level).toNat = level :=
  WordBits.toNatOfNat (Nat.lt_trans inside (UInt32.toNat_lt _))

theorem levelInj (inside : level < book.levelCount) (inside' : l < book.levelCount)
    (same : UInt32.ofNat level = UInt32.ofNat l) : level = l := by
  rw [← levelNarrow inside, ← levelNarrow inside', same]

theorem occupiedInside (shape : Shape pool book queues) (member : slot ∈ queues side level) :
    level < book.levelCount := by
  by_contra past
  simp [shape.beyond side level (Nat.not_lt.mp past)] at member

theorem oneQueue (shape : Shape pool book queues) (here : slot ∈ queues side level)
    (there : slot ∈ queues other l) : other = side ∧ l = level := by
  have a := shape.home side level slot here
  have b := shape.home other l slot there
  refine ⟨b.side.symm.trans a.side, ?_⟩
  exact levelInj (occupiedInside shape there) (occupiedInside shape here)
    (b.levelIndex.symm.trans a.levelIndex)

theorem homeFrame {pool' : OrderPool} {book' : OrderBook} (home : Home pool book side level slot)
    (size : pool.size ≤ pool'.size) (core : (pool'.get slot).core = (pool.get slot).core)
    (frame : SameFrame book book') : Home pool' book' side level slot := by
  refine ⟨Nat.lt_of_lt_of_le home.inside size, ?_, ?_, ?_, ?_, ?_⟩
  · rw [coreField OrderRecord.isOpen (fun _ => rfl) core, home.isOpen]
  · rw [coreField OrderRecord.side (fun _ => rfl) core, home.side]
  · rw [coreField OrderRecord.instrumentId (fun _ => rfl) core, home.instrumentId,
      frame.instrumentId]
  · rw [coreField OrderRecord.levelIndex (fun _ => rfl) core, home.levelIndex]
  · rw [coreField OrderRecord.price (fun _ => rfl) core, home.price, indexToPrice, indexToPrice,
      frame.ladder]

theorem queueShort {slots : List Slot} (nodup : slots.Nodup)
    (inside : ∀ slot ∈ slots, slot.toNat < pool.size) : slots.length ≤ pool.size := by
  have distinct : (slots.map UInt32.toNat).Nodup := nodup.map (fun a b => UInt32.toNat_inj.mp)
  have sub : slots.map UInt32.toNat ⊆ List.range pool.size := by
    intro n member
    obtain ⟨slot, present, rfl⟩ := List.mem_map.mp member
    exact List.mem_range.mpr (inside slot present)
  simpa using (List.subperm_of_subset distinct sub).length_le

theorem shapeCongr {pool' : OrderPool} (shape : Shape pool book queues)
    (size : pool.size ≤ pool'.size)
    (same : ∀ side level slot, slot ∈ queues side level → pool'.get slot = pool.get slot) :
    Shape pool' book queues := by
  refine ⟨fun s l inside => ?_, shape.beyond, fun s l slot member => ?_, shape.count,
    fun s l inside => ?_, shape.bits, shape.best⟩
  · refine queueCongr (shape.queue s l inside) (fun slot member => ?_)
    simp only [OrderPool.links, same s l slot member, and_self]
  · exact homeFrame (shape.home s l slot member) size (by rw [same s l slot member])
      (sameFrameRefl book)
  · rw [shape.total s l inside,
      OrderPool.openInCongr (fun slot member => by rw [same s l slot member])]

end Reading

/- One level changes, everything else stays: the part of the invariant that is about the
other levels is the same for every operation. -/
structure LevelChange (pool pool' : OrderPool) (book book' : OrderBook) (queues : Queues)
    (side : Side) (level : Nat) (slots : List Slot) : Prop where
  inside : level < book.levelCount
  frame : SameFrame book book'
  size : pool'.size = pool.size
  elsewhere : ∀ s i, ¬(s = side ∧ i = UInt32.ofNat level) → book'.levelAt s i = book.levelAt s i
  kept : ∀ slot, slot ∉ queues side level → slot ∉ slots → pool'.get slot = pool.get slot
  apart : ∀ s l slot, slot ∈ queues s l → slot ∈ slots → s = side ∧ l = level
  queue : Queue kInvalidSlot pool'.links (book'.ends side level) slots
  home : ∀ slot ∈ slots, Home pool' book' side level slot
  count : (book'.levelAt side (UInt32.ofNat level)).orderCount = UInt32.ofNat slots.length
  total : (book'.levelAt side (UInt32.ofNat level)).totalQty = UInt32.ofNat (pool'.openIn slots)
  bits : ∀ s l, (book'.bitmap s).has l = true ↔ queues.put side level slots s l ≠ []
  best : ∀ s, LevelBitset.Nearest (fun l => queues.put side level slots s l ≠ []) s.ahead
    (book'.bestIndex s)

section Changing
variable {pool pool' : OrderPool} {book book' : OrderBook} {queues : Queues} {side : Side}
  {level : Nat} {slots : List Slot}

theorem shapeChange (shape : Shape pool book queues)
    (change : LevelChange pool pool' book book' queues side level slots) :
    Shape pool' book' (queues.put side level slots) := by
  have count : book'.levelCount = book.levelCount := by
    rw [levelCount, levelCount, change.frame.ladder]
  have untouched : ∀ s l, ¬(s = side ∧ l = level) → l < book.levelCount →
      book'.levelAt s (UInt32.ofNat l) = book.levelAt s (UInt32.ofNat l) ∧
        ∀ slot ∈ queues s l, pool'.get slot = pool.get slot := by
    intro s l other inside
    refine ⟨change.elsewhere s _ (fun h => other ⟨h.1, levelInj inside change.inside h.2⟩),
      fun slot member => ?_⟩
    exact change.kept slot (fun here => other (oneQueue shape here member))
      (fun new => other (change.apart s l slot member new))
  refine ⟨fun s l inside => ?_, fun s l past => ?_, fun s l slot member => ?_, fun s l inside => ?_,
    fun s l inside => ?_, change.bits, change.best⟩
  · by_cases here : s = side ∧ l = level
    · obtain ⟨rfl, rfl⟩ := here
      rw [Queues.putSame]
      exact change.queue
    · rw [count] at inside
      obtain ⟨sameLevel, same⟩ := untouched s l here inside
      rw [Queues.putOther here, ends, sameLevel]
      refine queueCongr (shape.queue s l inside) (fun slot member => ?_)
      simp only [OrderPool.links, same slot member, and_self]
  · have := change.inside
    rw [Queues.putOther (by omega)]
    exact shape.beyond s l (by omega)
  · by_cases here : s = side ∧ l = level
    · obtain ⟨rfl, rfl⟩ := here
      rw [Queues.putSame] at member
      exact change.home slot member
    · rw [Queues.putOther here] at member
      have same := (untouched s l here (occupiedInside shape member)).2 slot member
      exact homeFrame (shape.home s l slot member) (Nat.le_of_eq change.size.symm)
        (by rw [same]) change.frame
  · by_cases here : s = side ∧ l = level
    · obtain ⟨rfl, rfl⟩ := here
      rw [Queues.putSame]
      exact change.count
    · rw [count] at inside
      rw [Queues.putOther here, (untouched s l here inside).1, shape.count s l inside]
  · by_cases here : s = side ∧ l = level
    · obtain ⟨rfl, rfl⟩ := here
      rw [Queues.putSame]
      exact change.total
    · rw [count] at inside
      obtain ⟨sameLevel, same⟩ := untouched s l here inside
      rw [Queues.putOther here, sameLevel, shape.total s l inside,
        OrderPool.openInCongr (fun slot member => by rw [same slot member])]

end Changing
end OrderBook
end Xmatch
