import Xmatch.OrderPool

/-! The pool over every sequence of calls: when a slot it hands out names its record for good. -/
namespace Xmatch.OrderPool

inductive Call where
  | reserve (memory : Bool) (nSlots : Nat)
  | allocate
  | write (slot : Slot) (record : OrderRecord)

def Call.allocates : Call → Bool
  | allocate => true
  | _ => false

/- The pool, the slots it has returned, the newest first, and what was last written to each. -/
structure Use where
  pool : OrderPool := {}
  returned : List Slot := []
  last : Slot → OrderRecord := fun _ => {}

def Use.perform (use : Use) : Call → Use
  -- the new chunks are built aside, so a failed `reserve` leaves the pool as it was
  | .reserve memory nSlots => if memory then { use with pool := use.pool.reserve nSlots } else use
  | .allocate =>
    match use.pool.allocate true with
    | none => use
    | some (slot, pool) => ⟨pool, slot :: use.returned, Function.update use.last slot {}⟩
  | .write slot record =>
    { use with pool := use.pool.put slot record, last := Function.update use.last slot record }

/- Only slots that were returned are written to. -/
def Call.Allowed (use : Use) : Call → Prop
  | write slot _ => slot ∈ use.returned
  | _ => True

inductive Run : List Call → Use → Prop where
  | start : Run [] {}
  | next {calls use} (run : Run calls use) (call : Call) (allowed : call.Allowed use) :
      Run (call :: calls) (use.perform call)

def place (slot : Slot) : Nat × Nat := (slot.toNat / kChunkSize, slot.toNat % kChunkSize)

structure Permanent (use : Use) : Prop where
  unique : use.returned.Nodup
  valid : kInvalidSlot ∉ use.returned
  apart : ∀ slot ∈ use.returned, ∀ slot' ∈ use.returned, slot ≠ slot' → place slot ≠ place slot'
  inside : ∀ slot ∈ use.returned, (place slot).1 < use.pool.chunks.size ∧
    (place slot).2 < (use.pool.chunks.read (place slot).1).size
  kept : ∀ slot ∈ use.returned, use.pool.get slot = use.last slot
  oneChunk : ∀ memory slot pool', use.pool.allocate memory = some (slot, pool') →
    pool'.chunks.size ≤ use.pool.chunks.size + 1 ∧ use.pool.size / kChunkSize < pool'.chunks.size

def Whole (pool : OrderPool) : Prop :=
  ∀ i < pool.chunks.size, (pool.chunks.read i).size = kChunkSize

structure Extends (pool pool' : OrderPool) : Prop where
  size : pool'.size = pool.size
  chunks : pool.chunks.size ≤ pool'.chunks.size
  read : ∀ i < pool.chunks.size, pool'.chunks.read i = pool.chunks.read i
  whole : Whole pool → Whole pool'

theorem extendsSelf (pool : OrderPool) : Extends pool pool :=
  ⟨rfl, Nat.le_refl _, fun _ _ => rfl, id⟩

theorem extendsTrans {pool pool' pool'' : OrderPool} (first : Extends pool pool')
    (second : Extends pool' pool'') :
    Extends pool pool'' where
  size := second.size.trans first.size
  chunks := Nat.le_trans first.chunks second.chunks
  read i inside := (second.read i (Nat.lt_of_lt_of_le inside first.chunks)).trans
    (first.read i inside)
  whole all := second.whole (first.whole all)

theorem addChunkExtends (pool : OrderPool) : Extends pool pool.addChunk where
  size := rfl
  chunks := by simp [addChunk]
  read i inside := by simp [addChunk, Buffer.readPush, Nat.ne_of_lt inside]
  whole all i inside := by
    have below : i < pool.chunks.size + 1 := inside
    simp only [addChunk, Buffer.readPush]
    split
    · rfl
    · exact all i (by omega)

theorem reserveExtends (pool : OrderPool) (nSlots : Nat) : Extends pool (pool.reserve nSlots) := by
  simp only [reserve]
  generalize (nSlots + kChunkSize - 1) / kChunkSize - pool.chunks.size = missing
  induction missing with
  | zero => exact extendsSelf pool
  | succ missing ih =>
    rw [List.range_succ, List.foldl_append]
    exact extendsTrans ih (addChunkExtends _)

theorem storedExtends {pool pool' : OrderPool} (larger : Extends pool pool')
    (stored : Stored pool) : Stored pool' := by
  have chunks := Nat.mul_le_mul_right kChunkSize larger.chunks
  unfold Stored at stored ⊢
  rw [larger.size]
  omega

theorem getExtends {pool pool' : OrderPool} (larger : Extends pool pool') (stored : Stored pool)
    {slot : Slot} (inside : slot.toNat < pool.size) : pool'.get slot = pool.get slot := by
  rw [get, larger.read _ (chunksStored stored inside), get]

theorem allocateChunks {memory : Bool} {pool pool' : OrderPool} {slot : Slot} (stored : Stored pool)
    (ok : pool.allocate memory = some (slot, pool')) :
    pool'.chunks.size ≤ pool.chunks.size + 1 ∧ pool.size / kChunkSize < pool'.chunks.size ∧
      (Whole pool → Whole pool') := by
  have enough : pool.size / kChunkSize ≤ pool.chunks.size := by
    refine Nat.div_le_of_le_mul ?_
    rw [Nat.mul_comm]
    exact stored
  have written : ∀ grown : OrderPool, (Whole pool → Whole grown) → Whole pool →
      Whole { chunks := grown.chunks.write (pool.size / kChunkSize)
                ((grown.chunks.read (pool.size / kChunkSize)).write (pool.size % kChunkSize) {}),
              size := grown.size + 1 } := by
    intro grown keeps all i inside
    simp only [Buffer.readWrite]
    split
    · rename_i here
      simp only [Buffer.sizeWrite]
      exact keeps all _ (by rw [← here]; exact inside)
    · exact keeps all i inside
  simp only [allocate] at ok
  split at ok
  · cases memory with
    | false => contradiction
    | true =>
      simp only [if_true, Option.map_some, Option.some.injEq, Prod.mk.injEq] at ok
      obtain ⟨_, rfl⟩ := ok
      refine ⟨Nat.le_refl _, ?_, written _ (addChunkExtends pool).whole⟩
      simp only [addChunk, Buffer.sizeWrite, Buffer.sizePush]
      omega
  · simp only [Option.map_some, Option.some.injEq, Prod.mk.injEq] at ok
    obtain ⟨_, rfl⟩ := ok
    refine ⟨Nat.le_succ _, ?_, written pool id⟩
    simp only [Buffer.sizeWrite]
    omega

theorem allocateEnds (pool : OrderPool) :
    ∃ slot pool', pool.allocate true = some (slot, pool') := by
  cases outcome : pool.allocate true with
  | none => exact absurd (allocateFails outcome) (by decide)
  | some pair => exact ⟨pair.1, pair.2, rfl⟩

structure Counted (calls : List Call) (use : Use) : Prop where
  size : use.pool.size = calls.countP Call.allocates
  returned : use.returned = ((List.range use.pool.size).map UInt32.ofNat).reverse
  stored : Stored use.pool
  whole : Whole use.pool

theorem storedPut {pool : OrderPool} {slot : Slot} {record : OrderRecord} (stored : Stored pool) :
    Stored (pool.put slot record) := stored

theorem wholePut {pool : OrderPool} {slot : Slot} {record : OrderRecord} (all : Whole pool) :
    Whole (pool.put slot record) := by
  intro i inside
  simp only [put, Buffer.readWrite]
  split
  · rename_i here
    rw [Buffer.sizeWrite, ← here]
    exact all i inside
  · exact all i inside

theorem runCounted {calls : List Call} {use : Use} (run : Run calls use) : Counted calls use := by
  induction run with
  | start => exact ⟨rfl, rfl, Nat.zero_le _, fun i inside => absurd inside (Nat.not_lt_zero i)⟩
  | @next calls use run call allowed ih =>
    cases call with
    | reserve memory nSlots =>
      cases memory with
      | false => exact ⟨ih.size, ih.returned, ih.stored, ih.whole⟩
      | true =>
        have larger := reserveExtends use.pool nSlots
        refine ⟨larger.size.trans ih.size, ?_, storedExtends larger ih.stored,
          larger.whole ih.whole⟩
        simp only [Use.perform, if_true, larger.size]
        exact ih.returned
    | allocate =>
      obtain ⟨slot, pool', ok⟩ := allocateEnds use.pool
      have new := allocateAllocated ih.stored ok
      simp only [Use.perform, ok]
      refine ⟨?_, ?_, new.stored, (allocateChunks ih.stored ok).2.2 ih.whole⟩
      · rw [new.size, ih.size]
        exact (List.countP_cons_of_pos rfl).symm
      · simp [new.size, List.range_succ, ih.returned, new.named]
    | write slot record => exact ⟨ih.size, ih.returned, storedPut ih.stored, wholePut ih.whole⟩

theorem returnedIff {calls : List Call} {use : Use} (counted : Counted calls use)
    (few : calls.countP Call.allocates < 2 ^ 32) (slot : Slot) :
    slot ∈ use.returned ↔ slot.toNat < use.pool.size := by
  have small := counted.size
  rw [counted.returned, List.mem_reverse, List.mem_map]
  constructor
  · rintro ⟨i, below, rfl⟩
    have inside := List.mem_range.mp below
    rwa [UInt32.toNat_ofNat_of_lt' (by simp only [UInt32.size]; omega)]
  · intro below
    exact ⟨slot.toNat, List.mem_range.mpr below, UInt32.ofNat_toNat⟩

theorem runKept {calls : List Call} {use : Use} (run : Run calls use)
    (few : calls.countP Call.allocates < 2 ^ 32) :
    ∀ slot : Slot, slot.toNat < use.pool.size → use.pool.get slot = use.last slot := by
  induction run with
  | start => exact fun slot inside => absurd inside (Nat.not_lt_zero _)
  | @next calls use run call allowed ih =>
    have counted := runCounted run
    have before : calls.countP Call.allocates < 2 ^ 32 := by
      rw [List.countP_cons] at few
      omega
    have same := ih before
    intro slot inside
    cases call with
    | reserve memory nSlots =>
      cases memory with
      | false => exact same slot inside
      | true =>
        have larger := reserveExtends use.pool nSlots
        have within : slot.toNat < use.pool.size := by
          rw [← larger.size]
          exact inside
        exact (getExtends larger counted.stored within).trans (same slot within)
    | allocate =>
      obtain ⟨new, pool', ok⟩ := allocateEnds use.pool
      have made := allocateAllocated counted.stored ok
      have narrow : use.pool.size < 2 ^ 32 := by
        rw [counted.size]
        exact before
      have number : new.toNat = use.pool.size := by
        rw [made.named]
        exact UInt32.toNat_ofNat_of_lt' narrow
      simp only [Use.perform, ok, made.size] at inside ⊢
      by_cases here : slot = new
      · rw [here, made.fresh narrow, Function.update_self]
      · have other : slot.toNat ≠ new.toNat := fun equal => here (UInt32.toNat_inj.mp equal)
        have below : slot.toNat < use.pool.size := by omega
        rw [made.kept slot below, Function.update_of_ne here]
        exact same slot below
    | write target record =>
      simp only [Use.perform, getPut]
      split
      · rename_i here
        rw [here, Function.update_self]
      · rename_i apart
        rw [Function.update_of_ne apart]
        exact same slot inside

theorem sentinelReturned {calls : List Call} {use : Use} (run : Run calls use)
    (many : 2 ^ 32 ≤ calls.countP Call.allocates) : kInvalidSlot ∈ use.returned := by
  have counted := runCounted run
  have number : UInt32.ofNat (2 ^ 32 - 1) = kInvalidSlot := by decide
  rw [counted.returned, List.mem_reverse, ← number]
  exact List.mem_map_of_mem (List.mem_range.mpr (by rw [counted.size]; omega))

theorem slotsPermanent {calls : List Call} {use : Use} (run : Run calls use) :
    Permanent use ↔ calls.countP Call.allocates < 2 ^ 32 := by
  have counted := runCounted run
  constructor
  · intro permanent
    by_contra many
    exact permanent.valid (sentinelReturned run (Nat.not_lt.mp many))
  · intro few
    have small : use.pool.size < 2 ^ 32 := by
      rw [counted.size]
      exact few
    have named := returnedIff counted few
    refine ⟨?_, ?_, ?_, ?_, ?_, ?_⟩
    · rw [counted.returned, List.nodup_reverse]
      refine List.Nodup.map_on (fun i below j below' same => ?_) List.nodup_range
      have left := List.mem_range.mp below
      have right := List.mem_range.mp below'
      have numbers := congrArg UInt32.toNat same
      rwa [UInt32.toNat_ofNat_of_lt' (by simp only [UInt32.size]; omega),
        UInt32.toNat_ofNat_of_lt' (by simp only [UInt32.size]; omega)] at numbers
    · intro sentinel
      have below := (named kInvalidSlot).mp sentinel
      have number : kInvalidSlot.toNat = 2 ^ 32 - 1 := by decide
      omega
    · intro slot _ slot' _ different same
      obtain ⟨chunk, offset⟩ := Prod.mk.inj same
      refine different (UInt32.toNat_inj.mp ?_)
      rw [← Nat.div_add_mod slot.toNat kChunkSize, chunk, offset, Nat.div_add_mod]
    · intro slot member
      have chunk := chunksStored counted.stored ((named slot).mp member)
      have size := counted.whole _ chunk
      exact ⟨chunk, by rw [place, size]; exact Nat.mod_lt _ (by decide)⟩
    · exact fun slot member => runKept run few slot ((named slot).mp member)
    · intro memory slot pool' ok
      obtain ⟨one, room, _⟩ := allocateChunks counted.stored ok
      exact ⟨one, room⟩

theorem slotsPermanentTwo :
    ∃ use, Run [.write 0 { id := 7 }, .allocate, .reserve true 2, .allocate] use ∧
      Permanent use := by
  have run :=
    (((Run.start.next .allocate trivial).next (.reserve true 2) trivial).next
      .allocate trivial).next
    (.write 0 { id := 7 }) (.tail _ (.head _))
  exact ⟨_, run, (slotsPermanent run).mpr (by decide)⟩

theorem runAllocates (n : Nat) : ∃ use, Run (List.replicate n .allocate) use := by
  induction n with
  | zero => exact ⟨_, .start⟩
  | succ n ih =>
    obtain ⟨use, run⟩ := ih
    exact ⟨_, run.next .allocate trivial⟩

theorem slotsRunOut : ∃ use, Run (List.replicate (2 ^ 32) .allocate) use ∧ ¬Permanent use := by
  obtain ⟨use, run⟩ := runAllocates (2 ^ 32)
  have all : (List.replicate (2 ^ 32) Call.allocate).countP Call.allocates = 2 ^ 32 := by
    rw [List.countP_replicate, Call.allocates, if_pos rfl]
  exact ⟨use, run, fun permanent => permanent.valid (sentinelReturned run (Nat.le_of_eq all.symm))⟩

end Xmatch.OrderPool
