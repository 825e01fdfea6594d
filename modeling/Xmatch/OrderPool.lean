import Xmatch.Api
import Xmatch.Lib.Buffer
import Xmatch.Lib.LinkedQueue

/-! The pool of order records: append-only, in chunks that never move, so a slot names
its record for good. -/
namespace Xmatch

abbrev Slot := UInt32

def kInvalidSlot : Slot := 0xFFFFFFFF

structure OrderRecord where
  id : OrderId := 0
  price : Int := 0
  instrumentId : InstrumentId := 0
  openQty : Quantity := 0
  filledQty : Quantity := 0
  prev : Slot := kInvalidSlot
  next : Slot := kInvalidSlot
  levelIndex : UInt32 := kInvalidSlot
  side : Side := .buy
  isOpen : Bool := false
  deriving DecidableEq, Repr

structure OrderPool where
  chunks : Buffer (Buffer OrderRecord) := Buffer.replicate 0 (Buffer.replicate 0 {})
  size : Nat := 0

namespace OrderPool

def kChunkSize : Nat := 1048576

def freshChunk : Buffer OrderRecord := Buffer.replicate kChunkSize {}

def addChunk (pool : OrderPool) : OrderPool := { pool with chunks := pool.chunks.push freshChunk }

def reserve (pool : OrderPool) (nSlots : Nat) : OrderPool :=
  let neededChunks := (nSlots + kChunkSize - 1) / kChunkSize
  (List.range (neededChunks - pool.chunks.size)).foldl (fun pool _ => pool.addChunk) pool

def get (pool : OrderPool) (slot : Slot) : OrderRecord :=
  (pool.chunks.read (slot.toNat / kChunkSize)).read (slot.toNat % kChunkSize)

def put (pool : OrderPool) (slot : Slot) (record : OrderRecord) : OrderPool :=
  let chunk := pool.chunks.read (slot.toNat / kChunkSize)
  { pool with
    chunks := pool.chunks.write (slot.toNat / kChunkSize)
      (chunk.write (slot.toNat % kChunkSize) record) }

def modify (pool : OrderPool) (slot : Slot) (f : OrderRecord → OrderRecord) : OrderPool :=
  pool.put slot (f (pool.get slot))

-- What a trade does to each of its two records.
def fill (pool : OrderPool) (slot : Slot) (qty : Quantity) : OrderPool :=
  pool.modify slot (fun rec =>
    { rec with openQty := rec.openQty - qty, filledQty := rec.filledQty + qty })

-- `none`: the pool needed one more chunk and there was no memory for it.
def allocate (memory : Bool) (pool : OrderPool) : Option (Slot × OrderPool) :=
  let chunkIdx := pool.size / kChunkSize
  let offset := pool.size % kChunkSize
  let grown :=
    if pool.chunks.size ≤ chunkIdx then (if memory then some pool.addChunk else none) else some pool
  grown.map (fun pool =>
    (UInt32.ofNat pool.size,
      { chunks := pool.chunks.write chunkIdx ((pool.chunks.read chunkIdx).write offset {}),
        size := pool.size + 1 }))

def Stored (pool : OrderPool) : Prop := pool.size ≤ pool.chunks.size * kChunkSize

section Access
variable (pool : OrderPool) (slot other : Slot) (record : OrderRecord)
  (f : OrderRecord → OrderRecord)

theorem getPut : (pool.put slot record).get other = if other = slot then record
    else pool.get other := by
  have place : other = slot ↔ other.toNat / kChunkSize = slot.toNat / kChunkSize ∧
      other.toNat % kChunkSize = slot.toNat % kChunkSize := by
    rw [← UInt32.toNat_inj]
    constructor
    · intro same
      exact ⟨by rw [same], by rw [same]⟩
    · intro ⟨chunk, offset⟩
      rw [← Nat.div_add_mod other.toNat kChunkSize, chunk, offset, Nat.div_add_mod]
  simp only [get, put, Buffer.readWrite, place]
  by_cases chunk : other.toNat / kChunkSize = slot.toNat / kChunkSize
  · by_cases offset : other.toNat % kChunkSize = slot.toNat % kChunkSize <;>
      simp [chunk, offset, Buffer.readWrite]
  · simp [chunk]

theorem getModify :
    (pool.modify slot f).get other = if other = slot then f (pool.get slot) else pool.get other :=
  getPut ..

@[simp] theorem getModifySame : (pool.modify slot f).get slot = f (pool.get slot) := by
  simp [getModify]

theorem getModifyOther {other slot : Slot} (apart : other ≠ slot) :
    (pool.modify slot f).get other = pool.get other := by simp [getModify, apart]

@[simp] theorem sizePut : (pool.put slot record).size = pool.size := rfl
@[simp] theorem sizeModify : (pool.modify slot f).size = pool.size := rfl
@[simp] theorem chunksModify : (pool.modify slot f).chunks.size = pool.chunks.size := rfl

end Access

section Allocation
variable {memory : Bool} {pool pool' : OrderPool} {slot : Slot}

theorem allocateFails (failed : pool.allocate memory = none) : memory = false := by
  simp only [allocate, Option.map_eq_none_iff] at failed
  split at failed
  · cases memory
    · rfl
    · simp at failed
  · contradiction

theorem allocateSize (ok : pool.allocate memory = some (slot, pool')) :
    pool'.size = pool.size + 1 := by
  simp only [allocate] at ok
  obtain ⟨grown, grownIs, same⟩ := Option.map_eq_some_iff.mp ok
  cases same
  split at grownIs
  · split at grownIs
    · cases Option.some.inj grownIs
      rfl
    · contradiction
  · cases Option.some.inj grownIs
    rfl

/- A new slot comes after all others and starts as an empty record. -/
structure Allocated (pool : OrderPool) (slot : Slot) (pool' : OrderPool) : Prop where
  named : slot = UInt32.ofNat pool.size
  size : pool'.size = pool.size + 1
  stored : Stored pool'
  fresh : pool.size < 2 ^ 32 → pool'.get slot = {}
  kept : ∀ other : Slot, other.toNat < pool.size → pool'.get other = pool.get other

theorem chunksStored (stored : Stored pool) {other : Nat} (inside : other < pool.size) :
    other / kChunkSize < pool.chunks.size :=
  Nat.div_lt_of_lt_mul (by rw [Nat.mul_comm]; exact Nat.lt_of_lt_of_le inside stored)

theorem allocateAllocated (stored : Stored pool) (ok : pool.allocate memory = some (slot, pool')) :
    Allocated pool slot pool' := by
  have body : ∀ grown : OrderPool, grown.size = pool.size →
      pool.size / kChunkSize < grown.chunks.size →
      (∀ i < pool.chunks.size, grown.chunks.read i = pool.chunks.read i) →
      Allocated pool (UInt32.ofNat grown.size)
        { chunks := grown.chunks.write (pool.size / kChunkSize)
            ((grown.chunks.read (pool.size / kChunkSize)).write (pool.size % kChunkSize) {}),
          size := grown.size + 1 } := by
    intro grown size room same
    refine ⟨by rw [size], by rw [size], ?_, fun small => ?_, fun other below => ?_⟩
    · have inside := Nat.lt_mul_of_div_lt room (show 0 < kChunkSize by decide)
      simp only [Stored, Buffer.sizeWrite, size]
      exact inside
    · have exact : (UInt32.ofNat grown.size).toNat = pool.size := by
        rw [size]
        exact UInt32.toNat_ofNat_of_lt' small
      simp [get, exact, Buffer.readWrite]
    · have chunk := same _ (chunksStored stored below)
      simp only [get, Buffer.readWrite]
      split
      · rename_i sameChunk
        have offset : other.toNat % kChunkSize ≠ pool.size % kChunkSize := by
          intro sameOffset
          have := Nat.div_add_mod other.toNat kChunkSize
          rw [sameChunk, sameOffset, Nat.div_add_mod] at this
          omega
        rw [Buffer.readWrite, if_neg offset, ← sameChunk, chunk]
      · rw [chunk]
  simp only [allocate] at ok
  split at ok
  · rename_i full
    cases memory with
    | false => contradiction
    | true =>
      simp only [if_true, Option.map_some, Option.some.injEq, Prod.mk.injEq] at ok
      obtain ⟨rfl, rfl⟩ := ok
      have enough : pool.size / kChunkSize ≤ pool.chunks.size := by
        refine Nat.div_le_of_le_mul ?_
        rw [Nat.mul_comm]
        exact stored
      refine body pool.addChunk rfl (by simp only [addChunk, Buffer.sizePush]; omega)
        (fun i inside => ?_)
      simp [addChunk, Buffer.readPush, Nat.ne_of_lt inside]
  · rename_i room
    simp only [Option.map_some, Option.some.injEq, Prod.mk.injEq] at ok
    obtain ⟨rfl, rfl⟩ := ok
    exact body pool rfl (by omega) (fun i _ => rfl)

theorem reserveEmpty (nSlots : Nat) :
    (reserve {} nSlots).size = 0 ∧ Stored (reserve {} nSlots) := by
  have grows : ∀ (n : Nat) (pool : OrderPool),
      ((List.range n).foldl (fun pool _ => pool.addChunk) pool).size = pool.size := by
    intro n
    induction n with
    | zero => intro pool; rfl
    | succ n ih =>
      intro pool
      rw [List.range_succ, List.foldl_append]
      exact ih pool
  have size : (reserve {} nSlots).size = 0 := grows _ _
  exact ⟨size, by simp [Stored, size]⟩

end Allocation

/- The links of the level queues live in the records. -/
def links (pool : OrderPool) : LinkedQueue.Links Slot :=
  ⟨fun slot => (pool.get slot).next, fun slot => (pool.get slot).prev⟩

def openIn (pool : OrderPool) (slots : List Slot) : Nat :=
  (slots.map (fun slot => (pool.get slot).openQty.toNat)).sum

theorem openInCongr {pool pool' : OrderPool} {slots : List Slot}
    (same : ∀ slot ∈ slots, (pool'.get slot).openQty = (pool.get slot).openQty) :
    openIn pool' slots = openIn pool slots := by
  unfold openIn
  congr 1
  exact List.map_congr_left (fun slot member => by rw [same slot member])

end OrderPool
end Xmatch
