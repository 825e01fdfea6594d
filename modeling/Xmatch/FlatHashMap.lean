import Xmatch.Lib.Buffer
import Xmatch.Lib.Probing

/-! The id index: open addressing with linear probing over a power-of-two table, from
64-bit keys to 32-bit values. Entries are never erased and the table only grows. -/
namespace Xmatch

structure HashSlot where
  key : UInt64 := 0
  value : UInt32 := 0xFFFFFFFF
  occupied : Bool := false
  deriving DecidableEq, Repr

def FlatHashMap.mix (x : UInt64) : UInt64 :=
  let x := (x ^^^ (x >>> 30)) * 0xbf58476d1ce4e5b9
  let x := (x ^^^ (x >>> 27)) * 0x94d049bb133111eb
  x ^^^ (x >>> 31)

-- `hash` is what the source calls `mix`; every map of the engine uses the real one.
structure FlatHashMap where
  hash : UInt64 → UInt64 := FlatHashMap.mix
  slots : Buffer HashSlot := Buffer.replicate 0 {}
  capacity : Nat := 0
  mask : Nat := 0
  size : Nat := 0

namespace FlatHashMap
open Probing

def bitCeil (n : Nat) : Nat := if n ≤ 1 then 1 else 2 ^ (Nat.log2 (n - 1) + 1)

-- 0.7 as an exact fraction: the double quotient truncates to the same integer.
def capacityFor (n : Nat) : Nat := bitCeil (n * 10 / 7 + 1)

def next (map : FlatHashMap) (idx : Nat) : Nat := (idx + 1) &&& map.mask

def start (map : FlatHashMap) (key : UInt64) : Nat := (map.hash key).toNat &&& map.mask

-- A walk sees every cell within `capacity` steps; a free cell ends it earlier.
def probe (map : FlatHashMap) (key : UInt64) : Option Nat :=
  seek map.next (fun idx => !(map.slots.read idx).occupied || (map.slots.read idx).key == key)
    map.capacity (map.start key)

def find (map : FlatHashMap) (key : UInt64) : Option UInt32 :=
  match map.probe key with
  | some idx => if (map.slots.read idx).occupied then some (map.slots.read idx).value else none
  | none => none

def contains (map : FlatHashMap) (key : UInt64) : Bool := (map.find key).isSome

def assignExisting (map : FlatHashMap) (key : UInt64) (value : UInt32) : FlatHashMap :=
  match map.probe key with
  | some idx => { map with slots := map.slots.write idx { map.slots.read idx with value := value } }
  | none => map

def vacancy (map : FlatHashMap) (key : UInt64) : Option Nat :=
  seek map.next (fun idx => !(map.slots.read idx).occupied) map.capacity (map.start key)

def place (map : FlatHashMap) (key : UInt64) (value : UInt32) : FlatHashMap :=
  match map.vacancy key with
  | some idx => { map with slots := map.slots.write idx ⟨key, value, true⟩, size := map.size + 1 }
  | none => map

def placeAll (old : Buffer HashSlot) (map : FlatHashMap) (cells : Nat) : FlatHashMap :=
  (List.range cells).foldl
    (fun map idx =>
      if (old.read idx).occupied then map.place (old.read idx).key (old.read idx).value else map)
    map

def rehash (map : FlatHashMap) (newCapacity : Nat) : FlatHashMap :=
  let newCapacity := max newCapacity (capacityFor map.size)
  placeAll map.slots ⟨map.hash, Buffer.replicate newCapacity {}, newCapacity, newCapacity - 1,
    0⟩ map.slots.size

def emptyWith (hash : UInt64 → UInt64) : FlatHashMap := rehash { hash := hash } 16

def empty : FlatHashMap := emptyWith mix

def reserve (map : FlatHashMap) (n : Nat) : FlatHashMap :=
  if map.capacity < capacityFor n then map.rehash (capacityFor n) else map

-- `none`: the table had to grow and there was no memory for it.
def insert (memory : Bool) (map : FlatHashMap) (key : UInt64) (value : UInt32) :
    Option FlatHashMap :=
  if map.capacity * 7 / 10 < map.size + 1 then
    if memory then some ((map.rehash (2 * map.capacity)).place key value) else none
  else some (map.place key value)

def cells (map : FlatHashMap) (idx : Nat) : Option (UInt64 × UInt32) :=
  if (map.slots.read idx).occupied then
    some ((map.slots.read idx).key, (map.slots.read idx).value) else none

def home (hash : UInt64 → UInt64) (capacity : Nat) (key : UInt64) : Nat :=
  (hash key).toNat % capacity

structure Valid (map : FlatHashMap) : Prop where
  power : ∃ k, map.capacity = 2 ^ k
  mask : map.mask = map.capacity - 1
  storage : map.slots.size = map.capacity
  sound : Sound map.capacity (home map.hash map.capacity) map.cells
  count : map.size = load map.capacity map.cells
  room : map.size < map.capacity

theorem bitCeilPower (n : Nat) : ∃ k, bitCeil n = 2 ^ k := by
  unfold bitCeil
  split
  · exact ⟨0, rfl⟩
  · exact ⟨_, rfl⟩

theorem leBitCeil (n : Nat) : n ≤ bitCeil n := by
  unfold bitCeil
  split
  · assumption
  · have := @Nat.lt_log2_self (n - 1)
    omega

theorem capacityForPower (n : Nat) : ∃ k, capacityFor n = 2 ^ k := bitCeilPower _

theorem capacityForRoom (n : Nat) : n < capacityFor n := by
  have := leBitCeil (n * 10 / 7 + 1)
  unfold capacityFor
  omega

theorem maxPower {a b : Nat} (left : ∃ k, a = 2 ^ k) (right : ∃ k, b = 2 ^ k) :
    ∃ k, max a b = 2 ^ k := by
  rcases Nat.le_total a b with h | h
  · rwa [Nat.max_eq_right h]
  · rwa [Nat.max_eq_left h]

section Walks
variable {map : FlatHashMap} {key : UInt64} {value : UInt32}

theorem nextRing (power : ∃ k, map.capacity = 2 ^ k) (mask : map.mask = map.capacity - 1) :
    map.next = ring map.capacity := by
  obtain ⟨k, hk⟩ := power
  funext idx
  rw [next, ring, mask, hk, Nat.and_two_pow_sub_one_eq_mod]

theorem startHome (power : ∃ k, map.capacity = 2 ^ k) (mask : map.mask = map.capacity - 1)
    (key : UInt64) : map.start key = home map.hash map.capacity key := by
  obtain ⟨k, hk⟩ := power
  rw [start, home, mask, hk, Nat.and_two_pow_sub_one_eq_mod]

theorem homeInside (valid : Valid map) (key : UInt64) :
    home map.hash map.capacity key < map.capacity :=
  Nat.mod_lt _ (Nat.lt_of_le_of_lt (Nat.zero_le _) valid.room)

theorem probeSeek (valid : Valid map) (key : UInt64) :
    map.probe key = seek (ring map.capacity) (stopsFor map.cells key) map.capacity
      (home map.hash map.capacity key) := by
  have stop : (fun idx => !(map.slots.read idx).occupied || (map.slots.read idx).key == key) =
      stopsFor map.cells key := by
    funext idx
    cases taken : (map.slots.read idx).occupied <;> simp [stopsFor, cells, taken]
  rw [probe, nextRing valid.power valid.mask, startHome valid.power valid.mask, stop]

theorem vacancySeek (power : ∃ k, map.capacity = 2 ^ k) (mask : map.mask = map.capacity - 1)
    (key : UInt64) :
    map.vacancy key = seek (ring map.capacity) (isFree map.cells) map.capacity
      (home map.hash map.capacity key) := by
  have stop : (fun idx => !(map.slots.read idx).occupied) = isFree map.cells := by
    funext idx
    cases occupied : (map.slots.read idx).occupied <;> simp [isFree, cells, occupied]
  rw [vacancy, nextRing power mask, startHome power mask, stop]

theorem someFree (valid : Valid map) : ∃ p < map.capacity, map.cells p = none :=
  freeCell (by rw [← valid.count]; exact valid.room)

theorem findHolds (valid : Valid map) (key : UInt64) (value : UInt32) :
    map.find key = some value ↔ Holds map.capacity map.cells key value := by
  have homed := homeInside valid key
  by_cases present : ∃ v, Holds map.capacity map.cells key v
  · obtain ⟨v, idx, inside, here⟩ := present
    have found := seekPresent valid.sound homed inside here
    have taken : (map.slots.read idx).occupied = true ∧ (map.slots.read idx).value = v := by
      unfold cells at here
      split at here
      · rename_i occupied
        exact ⟨occupied, congrArg Prod.snd (Option.some.inj here)⟩
      · contradiction
    simp only [find, probeSeek valid, found, taken, if_true, Option.some.injEq]
    constructor
    · rintro rfl
      exact ⟨idx, inside, here⟩
    · exact holdsUnique valid.sound homed ⟨idx, inside, here⟩
  · have absent : ∀ v, ¬Holds map.capacity map.cells key v := fun v h => present ⟨v, h⟩
    obtain ⟨p, cell, free⟩ := someFree valid
    obtain ⟨idx, _, found, none⟩ := seekAbsent homed absent cell free
    have empty : (map.slots.read idx).occupied = false := by
      unfold cells at none
      split at none
      · contradiction
      · simp_all
    simp [find, probeSeek valid, found, empty, absent value]

theorem findNone (valid : Valid map) (key : UInt64) :
    map.find key = none ↔ ∀ value, ¬Holds map.capacity map.cells key value := by
  simp only [← findHolds valid, Option.eq_none_iff_forall_ne_some, ne_eq]

theorem placeCells (power : ∃ k, map.capacity = 2 ^ k) (mask : map.mask = map.capacity - 1)
    (absent : ∀ v, ¬Holds map.capacity map.cells key v)
    (free : ∃ p < map.capacity, map.cells p = none) (value : UInt32) :
    ∃ idx < map.capacity, map.cells idx = none ∧
      (map.place key value).cells = Function.update map.cells idx (some (key, value)) ∧
      (Sound map.capacity (home map.hash map.capacity) map.cells →
        Sound map.capacity (home map.hash map.capacity) (map.place key value).cells) ∧
      (map.place key value).size = map.size + 1 ∧ (map.place key value).capacity = map.capacity ∧
      (map.place key value).mask = map.mask ∧ (map.place key value).slots.size = map.slots.size ∧
      (map.place key value).hash = map.hash := by
  obtain ⟨p, cell, empty⟩ := free
  have homed : home map.hash map.capacity key < map.capacity := Nat.mod_lt _ (by omega)
  obtain ⟨j, enough, found, none, taken⟩ := seekFree homed absent cell empty
  have placed : map.place key value = { map with
      slots := map.slots.write ((home map.hash map.capacity key + j) % map.capacity)
        ⟨key, value, true⟩,
      size := map.size + 1 } := by
    rw [place, vacancySeek power mask, found]
  have update : (map.place key value).cells =
      Function.update map.cells ((home map.hash map.capacity key + j) % map.capacity)
      (some (key, value)) := by
    funext idx
    rw [placed]
    simp only [cells, Buffer.readWrite, Function.update_apply]
    split <;> simp
  refine ⟨_, Nat.mod_lt _ (by omega), none, update, fun sound => ?_, ?_⟩
  · rw [update]
    exact soundFill sound enough none taken
  · rw [placed]
    exact ⟨rfl, rfl, rfl, rfl, rfl⟩

theorem placeValid (valid : Valid map) (absent : map.find key = none)
    (fits : map.size + 1 < map.capacity) (value : UInt32) :
    Valid (map.place key value) ∧ (map.place key value).size = map.size + 1 ∧
      (map.place key value).capacity = map.capacity ∧ (map.place key value).hash = map.hash ∧
      ∀ k v, (map.place key value).find k = some v ↔
      (k = key ∧ v = value) ∨ map.find k = some v := by
  obtain ⟨idx, inside, none, update, sound, size, capacity, mask, storage, hash⟩ :=
    placeCells valid.power valid.mask ((findNone valid key).mp absent) (someFree valid) value
  have placed : Valid (map.place key value) :=
    ⟨by rw [capacity]; exact valid.power, by rw [mask, capacity]; exact valid.mask,
      by rw [storage, capacity]; exact valid.storage, by rw [capacity, hash]; exact sound valid.sound,
      by rw [size, capacity, update, loadFill inside none, ← valid.count], by omega⟩
  refine ⟨placed, size, capacity, hash, fun k v => ?_⟩
  rw [findHolds placed, findHolds valid, capacity, update, holdsFill inside none]

end Walks

structure Copied (mix : UInt64 → UInt64) (old : Nat → Option (UInt64 × UInt32))
    (cells newCapacity : Nat) (map : FlatHashMap) : Prop where
  hash : map.hash = mix
  capacity : map.capacity = newCapacity
  mask : map.mask = newCapacity - 1
  storage : map.slots.size = newCapacity
  sound : Sound newCapacity (home mix newCapacity) map.cells
  count : map.size = load newCapacity map.cells
  filled : map.size = load cells old
  holds : ∀ k v, Holds newCapacity map.cells k v ↔ Holds cells old k v

theorem replaceCopied {map : FlatHashMap} (valid : Valid map) {newCapacity : Nat}
    (power : ∃ k, newCapacity = 2 ^ k) (fits : map.size < newCapacity) (cells : Nat)
    (within : cells ≤ map.capacity) :
    Copied map.hash map.cells cells newCapacity
      (placeAll map.slots ⟨map.hash, Buffer.replicate newCapacity {}, newCapacity, newCapacity - 1,
        0⟩ cells) := by
  induction cells with
  | zero =>
    have fresh : ∀ i, FlatHashMap.cells ⟨map.hash, Buffer.replicate newCapacity {}, newCapacity,
      newCapacity - 1, 0⟩ i =
        none := fun i => rfl
    refine ⟨rfl, rfl, rfl, rfl, fun i _ k v here => by simp [placeAll, fresh] at here, ?_,
      by simp [placeAll, load], ?_⟩
    · refine (List.countP_eq_zero.mpr fun i _ => ?_).symm
      simp [placeAll, fresh]
    · intro k v
      constructor
      · rintro ⟨i, _, here⟩
        simp [placeAll, fresh] at here
      · rintro ⟨i, none, _⟩
        omega
  | succ n ih =>
    have before := ih (by omega)
    have step : placeAll map.slots ⟨map.hash, Buffer.replicate newCapacity {}, newCapacity,
      newCapacity - 1, 0⟩ (n + 1) =
        if (map.slots.read n).occupied then
          (placeAll map.slots ⟨map.hash, Buffer.replicate newCapacity {}, newCapacity,
            newCapacity - 1, 0⟩ n).place
            (map.slots.read n).key (map.slots.read n).value
        else placeAll map.slots ⟨map.hash, Buffer.replicate newCapacity {}, newCapacity,
          newCapacity - 1, 0⟩ n := by
      simp [placeAll, List.range_succ]
    rw [step]
    generalize placeAll map.slots ⟨map.hash, Buffer.replicate newCapacity {}, newCapacity,
      newCapacity - 1, 0⟩ n = copy at before ⊢
    have extend : ∀ k v, Holds (n + 1) map.cells k v ↔
        map.cells n = some (k, v) ∨ Holds n map.cells k v := by
      intro k v
      constructor
      · rintro ⟨i, inside, here⟩
        by_cases last : i = n
        · exact .inl (last ▸ here)
        · exact .inr ⟨i, by omega, here⟩
      · rintro (here | ⟨i, inside, here⟩)
        · exact ⟨n, by omega, here⟩
        · exact ⟨i, by omega, here⟩
    split
    · rename_i occupied
      have here : map.cells n = some ((map.slots.read n).key, (map.slots.read n).value) := by
        simp [FlatHashMap.cells, occupied]
      have absent : ∀ v, ¬Holds copy.capacity copy.cells (map.slots.read n).key v := by
        intro v holds
        rw [before.capacity] at holds
        obtain ⟨i, inside, content⟩ := (before.holds _ v).mp holds
        have := soundUnique valid.sound (homeInside valid _) (by omega) (by omega) content here
        omega
      have loaded : load (n + 1) map.cells = load n map.cells + 1 := by simp [loadSucc, here]
      have bounded : load (n + 1) map.cells ≤ load map.capacity map.cells := by
        unfold load
        exact List.Sublist.countP_le (List.range_sublist.mpr (by omega))
      have free : ∃ p < copy.capacity, copy.cells p = none := by
        refine freeCell ?_
        have := before.count
        have := before.filled
        have := valid.count
        rw [before.capacity]
        omega
      obtain ⟨idx, inside, none, update, sound, size, capacity, mask, storage, hash⟩ :=
        placeCells (by rw [before.capacity]; exact power)
          (by rw [before.mask, before.capacity]) absent free (map.slots.read n).value
      rw [before.capacity, before.hash] at sound
      rw [before.capacity] at inside capacity
      refine ⟨hash.trans before.hash, capacity, mask.trans before.mask,
        storage.trans before.storage, sound before.sound, ?_, ?_, ?_⟩
      · rw [size, update, loadFill inside none, ← before.count]
      · rw [size, loaded, before.filled]
      · intro k v
        rw [update, holdsFill inside none, before.holds, extend, here]
        simp [eq_comm]
    · rename_i empty
      have here : map.cells n = none := by simp [FlatHashMap.cells, empty]
      refine ⟨before.hash, before.capacity, before.mask, before.storage, before.sound, before.count,
        ?_, fun k v => ?_⟩
      · rw [before.filled, loadSucc, here]
        rfl
      · rw [before.holds, extend, here]
        simp

section Operations
variable {map : FlatHashMap} {key : UInt64} {value : UInt32}

theorem rehashValid (valid : Valid map) (newCapacity : Nat) (power : ∃ k, newCapacity = 2 ^ k) :
    Valid (map.rehash newCapacity) ∧ (map.rehash newCapacity).size = map.size ∧
      (map.rehash newCapacity).capacity = max newCapacity (capacityFor map.size) ∧
      (map.rehash newCapacity).hash = map.hash ∧
      ∀ k v, (map.rehash newCapacity).find k = some v ↔ map.find k = some v := by
  have grown := maxPower power (capacityForPower map.size)
  have room := capacityForRoom map.size
  have copied := replaceCopied valid grown (by omega) map.capacity (Nat.le_refl _)
  have same : placeAll map.slots
      ⟨map.hash, Buffer.replicate (max newCapacity (capacityFor map.size)) {},
      max newCapacity (capacityFor map.size), max newCapacity (capacityFor map.size) - 1,
      0⟩ map.capacity =
      map.rehash newCapacity := by
    rw [rehash, valid.storage]
  rw [same] at copied
  have size : (map.rehash newCapacity).size = map.size := copied.filled.trans valid.count.symm
  have valid' : Valid (map.rehash newCapacity) := by
    refine ⟨by rw [copied.capacity]; exact grown, by rw [copied.mask, copied.capacity],
      by rw [copied.storage, copied.capacity], by rw [copied.capacity, copied.hash]; exact copied.sound,
      by rw [copied.capacity]; exact copied.count, ?_⟩
    rw [size, copied.capacity]
    omega
  refine ⟨valid', size, copied.capacity, copied.hash, fun k v => ?_⟩
  rw [findHolds valid', findHolds valid, copied.capacity, copied.holds]

theorem insertValid (valid : Valid map) (absent : map.find key = none) {memory : Bool}
    {map' : FlatHashMap} (inserted : map.insert memory key value = some map') :
    Valid map' ∧ ∀ k, map'.find k = if k = key then some value else map.find k := by
  have reads : ∀ m : FlatHashMap,
      (∀ k v, m.find k = some v ↔ (k = key ∧ v = value) ∨ map.find k = some v) →
      ∀ k, m.find k = if k = key then some value else map.find k := by
    intro m holds k
    ext v
    rw [holds]
    split
    · rename_i same
      simp [same, absent, eq_comm]
    · rename_i other
      simp [other]
  have room := valid.room
  unfold insert at inserted
  split at inserted
  · split at inserted
    · obtain ⟨k, hk⟩ := valid.power
      obtain ⟨grown, size, capacity, _, same⟩ :=
        rehashValid valid (2 * map.capacity) ⟨k + 1, by omega⟩
      have still : (map.rehash (2 * map.capacity)).find key = none := by
        simp [Option.eq_none_iff_forall_ne_some, same, absent]
      obtain ⟨valid', _, _, _, holds⟩ := placeValid grown still (by omega) value
      cases Option.some.inj inserted
      exact ⟨valid', reads _ (fun k v => by rw [holds, same])⟩
    · contradiction
  · obtain ⟨valid', _, _, _, holds⟩ := placeValid valid absent (by omega) value
    cases Option.some.inj inserted
    exact ⟨valid', reads _ holds⟩

theorem insertFails {memory : Bool} (failed : map.insert memory key value = none) :
    memory = false := by
  unfold insert at failed
  split at failed
  · cases memory
    · rfl
    · simp at failed
  · contradiction

theorem assignExistingValid (valid : Valid map) {old : UInt32} (present : map.find key = some old) :
    Valid (map.assignExisting key value) ∧
      ∀ k, (map.assignExisting key value).find k = if k = key then some value else map.find k := by
  obtain ⟨idx, inside, here⟩ := (findHolds valid key old).mp present
  have homed := homeInside valid key
  have found := seekPresent valid.sound homed inside here
  have taken : (map.slots.read idx).occupied = true ∧ (map.slots.read idx).key = key := by
    unfold cells at here
    split at here
    · rename_i occupied
      exact ⟨occupied, congrArg Prod.fst (Option.some.inj here)⟩
    · contradiction
  have assigned : map.assignExisting key value =
      { map with slots := map.slots.write idx { map.slots.read idx with value := value } } := by
    rw [assignExisting, probeSeek valid, found]
  have update : (map.assignExisting key value).cells =
      Function.update map.cells idx (some (key, value)) := by
    funext i
    rw [assigned]
    simp only [cells, Buffer.readWrite, Function.update_apply]
    split <;> simp [taken]
  have capacity : (map.assignExisting key value).capacity = map.capacity := by rw [assigned]
  have valid' : Valid (map.assignExisting key value) := by
    refine ⟨by rw [capacity]; exact valid.power, by rw [assigned]; exact valid.mask,
      by rw [assigned]; exact valid.storage, ?_, ?_, by rw [assigned]; exact valid.room⟩
    · rw [capacity, update, show (map.assignExisting key value).hash = map.hash by rw [assigned]]
      exact soundOverwrite valid.sound here value
    · rw [capacity, update, assigned, valid.count]
      refine loadCongr (fun i _ => ?_)
      rw [Function.update_apply]
      split
      · rename_i same
        simp [same, here]
      · rfl
  refine ⟨valid', fun k => ?_⟩
  ext v
  rw [findHolds valid', capacity, update, holdsOverwrite valid.sound homed inside here]
  split
  · simp [eq_comm]
  · rw [findHolds valid]

theorem emptyWithValid (mix : UInt64 → UInt64) :
    Valid (emptyWith mix) ∧ ∀ k, (emptyWith mix).find k = none := by
  have made : emptyWith mix = ⟨mix, Buffer.replicate 16 {}, 16, 15, 0⟩ := by
    simp [emptyWith, rehash, placeAll, capacityFor, bitCeil, Buffer.replicate]
  rw [made]
  have cell : ∀ i, FlatHashMap.cells ⟨mix, Buffer.replicate 16 {}, 16, 15, 0⟩ i =
      none := fun i => rfl
  have valid : Valid ⟨mix, Buffer.replicate 16 {}, 16, 15, 0⟩ := by
    refine ⟨⟨4, rfl⟩, rfl, rfl, fun i _ k v here => ?_, ?_, by change 0 < 16; decide⟩
    rotate_left
    · simp [load, cell]
    rw [cell] at here
    contradiction
  refine ⟨valid, fun k => (findNone valid k).mpr ?_⟩
  rintro v ⟨i, _, here⟩
  rw [cell] at here
  contradiction

theorem emptyValid : Valid empty ∧ ∀ k, empty.find k = none := emptyWithValid mix

theorem reserveValid (valid : Valid map) (n : Nat) :
    Valid (map.reserve n) ∧ ∀ k, (map.reserve n).find k = map.find k := by
  unfold reserve
  split
  · obtain ⟨valid', _, _, _, same⟩ := rehashValid valid _ (capacityForPower n)
    exact ⟨valid', fun k => Option.ext (fun v => same k v)⟩
  · exact ⟨valid, fun k => rfl⟩

end Operations
end FlatHashMap
end Xmatch
