import Xmatch.Runs

/-! The orders that rest, read off the pool: the records that are open. They are the orders
of the venue, though not in its order. -/
namespace Xmatch

def OrderRecord.order (record : OrderRecord) : Order :=
  { id := record.id, price := record.price, openQty := record.openQty.toNat,
    filledQty := record.filledQty.toNat }

theorem quantityOfPerm {orders orders' : List Order} (perm : orders.Perm orders') :
    quantityOf orders = quantityOf orders' :=
  (perm.map (fun o : Order => o.openQty)).sum_eq

namespace Engine
open OrderBook

def slotsUsed (engine : Engine) : List Slot := (List.range engine.pool.size).map UInt32.ofNat

def restsFor (engine : Engine) (id : InstrumentId) (side : Side) (slot : Slot) : Bool :=
  (engine.pool.get slot).isOpen && decide ((engine.pool.get slot).instrumentId = id) &&
    decide ((engine.pool.get slot).side = side)

def restingSlots (engine : Engine) (id : InstrumentId) (side : Side) : List Slot :=
  (slotsUsed engine).filter (restsFor engine id side)

def resting (engine : Engine) (id : InstrumentId) (side : Side) : List OrderRecord :=
  (restingSlots engine id side).map engine.pool.get

def restingOrders (engine : Engine) (id : InstrumentId) (side : Side) : List Order :=
  (resting engine id side).map OrderRecord.order

def restingQuantity (engine : Engine) (id : InstrumentId) (side : Side) : Nat :=
  quantityOf (restingOrders engine id side)

section Slots
variable {engine : Engine} {queues : Nat → Queues} {venue : Venue} {credit b : Nat}
  {id : InstrumentId} {side : Side} {slot : Slot}

theorem memSlotsUsed (narrow : engine.pool.size ≤ kInvalidSlot.toNat) :
    slot ∈ slotsUsed engine ↔ slot.toNat < engine.pool.size := by
  have sentinel : kInvalidSlot.toNat < 2 ^ 32 := UInt32.toNat_lt _
  rw [slotsUsed, List.mem_map]
  constructor
  · rintro ⟨n, listed, rfl⟩
    have inside := List.mem_range.mp listed
    rwa [WordBits.toNatOfNat (by omega)]
  · intro inside
    exact ⟨slot.toNat, List.mem_range.mpr inside, by simp⟩

theorem slotsUsedNodup (narrow : engine.pool.size ≤ kInvalidSlot.toNat) :
    (slotsUsed engine).Nodup := by
  have sentinel : kInvalidSlot.toNat < 2 ^ 32 := UInt32.toNat_lt _
  refine List.Nodup.map_on (fun n inN m inM same => ?_) List.nodup_range
  have := List.mem_range.mp inN
  have := List.mem_range.mp inM
  have numbers := congrArg UInt32.toNat same
  rwa [WordBits.toNatOfNat (by omega), WordBits.toNatOfNat (by omega)] at numbers

theorem restsForIff : restsFor engine id side slot = true ↔ (engine.pool.get slot).isOpen = true ∧
    (engine.pool.get slot).instrumentId = id ∧ (engine.pool.get slot).side = side := by
  simp only [restsFor, Bool.and_eq_true, decide_eq_true_eq, and_assoc]

theorem memRestingSlots (narrow : engine.pool.size ≤ kInvalidSlot.toNat) :
    slot ∈ restingSlots engine id side ↔
    slot.toNat < engine.pool.size ∧ (engine.pool.get slot).isOpen = true ∧
      (engine.pool.get slot).instrumentId = id ∧ (engine.pool.get slot).side = side := by
  rw [restingSlots, List.mem_filter, memSlotsUsed narrow, restsForIff]

theorem restingSlotsPerm (rep : Rep engine queues) (inside : b < engine.books.size) (side : Side) :
    (restingSlots engine (engine.books.read b).instrumentId side).Perm
      (slotsOf (engine.books.read b).levelCount (queues b) side) := by
  have shape := rep.shape b inside
  refine (List.perm_ext_iff_of_nodup ((slotsUsedNodup rep.narrow).filter _)
    (slotsNodup shape side)).mpr (fun slot => ?_)
  change slot ∈ restingSlots engine (engine.books.read b).instrumentId side ↔ _
  rw [memRestingSlots rep.narrow, memSlotsOf shape]
  constructor
  · rintro ⟨real, isOpen, instrument, ownSide⟩
    obtain ⟨c, insideC, s, level, member⟩ := rep.housed slot real isOpen
    have home := (rep.shape c insideC).home s level slot member
    have same := bookUnique rep insideC inside (home.instrumentId.symm.trans instrument)
    subst same
    obtain rfl : s = side := home.side.symm.trans ownSide
    exact ⟨level, member⟩
  · rintro ⟨level, member⟩
    have home := shape.home side level slot member
    exact ⟨home.inside, home.isOpen, home.instrumentId, home.side⟩

theorem restingPerm (rep : Rep engine queues) (view : View engine queues venue credit)
    (found : engine.findBook id = some b) (side : Side) :
    (restingOrders engine id side).Perm (venue.orders b side) := by
  obtain ⟨inside, rfl⟩ := findBookSome rep found
  rw [ordersAt view inside, viewSide, restingOrders, resting, List.map_map]
  exact (restingSlotsPerm rep inside side).map (viewOrder engine.pool)

theorem restingNone (rep : Rep engine queues) (missing : engine.findBook id = none) (side : Side) :
    resting engine id side = [] := by
  have none : restingSlots engine id side = [] := by
    refine List.eq_nil_iff_forall_not_mem.mpr (fun slot member => ?_)
    obtain ⟨real, isOpen, instrument, -⟩ := (memRestingSlots rep.narrow).mp member
    obtain ⟨c, insideC, s, level, queued⟩ := rep.housed slot real isOpen
    have home := (rep.shape c insideC).home s level slot queued
    exact findBookNone rep missing c insideC (home.instrumentId.symm.trans instrument)
  rw [resting, none, List.map_nil]

end Slots

section Orders
variable {engine : Engine} {venue : Venue} {b : Nat} {id : InstrumentId} {side : Side}

theorem simPerm (sim : Sim engine venue) (found : engine.findBook id = some b) (side : Side) :
    (restingOrders engine id side).Perm (venue.orders b side) := by
  obtain ⟨queues, rep, _, view⟩ := sim
  exact restingPerm rep view found side

theorem simBook (sim : Sim engine venue) :
    venue.books.findIdx? (fun book => book.instrumentId = id) = engine.findBook id := by
  obtain ⟨queues, rep, _, view⟩ := sim
  exact (findBookIndex rep view id).symm

theorem restingOrder (sim : Sim engine venue) {record : OrderRecord}
    (member : record ∈ resting engine id side) :
    ∃ b, engine.findBook id = some b ∧ record.order ∈ venue.orders b side := by
  cases found : engine.findBook id with
  | none =>
    obtain ⟨queues, rep, _, _⟩ := sim
    rw [restingNone rep found] at member
    contradiction
  | some b => exact ⟨b, rfl, (simPerm sim found side).subset (List.mem_map_of_mem member)⟩

theorem restingQuantityEqVenue (sim : Sim engine venue) (found : engine.findBook id = some b)
    (side : Side) : restingQuantity engine id side = quantityOf (venue.orders b side) :=
  quantityOfPerm (simPerm sim found side)

end Orders
end Engine
end Xmatch
