import Xmatch.FlatHashMap
import Xmatch.Lib.Effect

/-! The id index as a finite map, over every sequence of calls and every mix function.
A call runs as a program on the map, and a failed allocation throws out of `rehash`. -/
namespace Xmatch.FlatHashMap
open Effect Probing

abbrev MapOp := Program FlatHashMap Unit Unit

-- The new array is allocated before any member is touched.
def rehashCall (memory : Bool) (newCapacity : Nat) : MapOp := do
  if !memory then throw ()
  modify (fun map => map.rehash newCapacity)

def reserveCall (memory : Bool) (n : Nat) : MapOp := do
  if (← get).capacity < capacityFor n then rehashCall memory (capacityFor n)

def insertCall (memory : Bool) (key : UInt64) (value : UInt32) : MapOp := do
  let map ← get
  if map.capacity * 7 / 10 < map.size + 1 then rehashCall memory (2 * map.capacity)
  modify (fun map => map.place key value)

def assignCall (key : UInt64) (value : UInt32) : MapOp :=
  modify (fun map => map.assignExisting key value)

theorem rehashRuns (memory : Bool) (newCapacity : Nat) (map : FlatHashMap) :
    (rehashCall memory newCapacity).run.run map = if memory then (.ok (), map.rehash newCapacity)
      else (.error (), map) := by
  cases memory <;> rfl

theorem reserveRuns (memory : Bool) (n : Nat) (map : FlatHashMap) :
    (reserveCall memory n).run.run map =
      if map.capacity < capacityFor n ∧ memory = false then (.error (), map)
      else (.ok (), map.reserve n) := by
  unfold reserve
  by_cases grows : map.capacity < capacityFor n
  · have reads : (reserveCall memory n).run.run map =
        (rehashCall memory (capacityFor n)).run.run map := by
      change (if map.capacity < capacityFor n then rehashCall memory (capacityFor n)
        else pure ()).run.run map = _
      rw [if_pos grows]
    rw [reads, rehashRuns, if_pos grows]
    cases memory <;> simp [grows]
  · rw [if_neg fun both => grows both.1, if_neg grows]
    change (if map.capacity < capacityFor n then rehashCall memory (capacityFor n)
      else pure ()).run.run map = _
    rw [if_neg grows]
    rfl

/- The program is the fallible insert that the engine uses. -/
theorem insertRuns (memory : Bool) (key : UInt64) (value : UInt32) (map : FlatHashMap) :
    (insertCall memory key value).run.run map =
      match map.insert memory key value with
      | none => (.error (), map)
      | some map' => (.ok (), map') := by
  have reads : (insertCall memory key value).run.run map =
      ((if map.capacity * 7 / 10 < map.size + 1 then rehashCall memory (2 * map.capacity)
        else pure ()) >>=
        fun _ => modify (fun map => map.place key value) : MapOp).run.run map := by
    unfold insertCall
    by_cases grows : map.capacity * 7 / 10 < map.size + 1
    · change (if map.capacity * 7 / 10 < map.size + 1 then _ else _ : MapOp).run.run map = _
      rw [if_pos grows, if_pos grows]
    · change (if map.capacity * 7 / 10 < map.size + 1 then _ else _ : MapOp).run.run map = _
      rw [if_neg grows, if_neg grows]
      rfl
  rw [reads, insert]
  split
  · cases memory <;> rfl
  · rfl

inductive Call where
  | reserve (n : Nat)
  | insert (key : UInt64) (value : UInt32)
  | assignExisting (key : UInt64) (value : UInt32)

def Call.perform (memory : Bool) : Call → MapOp
  | reserve n => reserveCall memory n
  | insert key value => insertCall memory key value
  | assignExisting key value => assignCall key value

def Call.writes : Call → List (UInt64 × UInt32)
  | reserve _ => []
  | insert key value => [(key, value)]
  | assignExisting key value => [(key, value)]

/- What the caller must see to: a key is inserted once and only then assigned. -/
def Call.Allowed (written : List (UInt64 × UInt32)) : Call → Prop
  | reserve _ => True
  | insert key _ => key ∉ written.map Prod.fst
  | assignExisting key _ => key ∈ written.map Prod.fst

/- The maps that calls can reach, with what was written so far, the newest first. -/
inductive Run (mix : UInt64 → UInt64) : List (UInt64 × UInt32) → FlatHashMap → Prop where
  | start : Run mix [] (emptyWith mix)
  | returned {written map map'} (memory : Bool) (call : Call) (run : Run mix written map)
    (allowed : call.Allowed written)
      (outcome : (call.perform memory).run.run map = (.ok (), map')) : Run mix
      (call.writes ++ written) map'
  | thrown {written map map'} (memory : Bool) (call : Call) (run : Run mix written map)
    (allowed : call.Allowed written)
      (outcome : (call.perform memory).run.run map = (.error (), map')) : Run mix written map'

structure Holding (mix : UInt64 → UInt64) (written : List (UInt64 × UInt32)) (map : FlatHashMap) :
    Prop where
  valid : Valid map
  hash : map.hash = mix
  found : ∀ key, map.find key = written.lookup key
  size : map.size = (written.map Prod.fst).dedup.length

section Steps
variable {mix : UInt64 → UInt64} {written : List (UInt64 × UInt32)} {map map' : FlatHashMap}
  {key : UInt64} {value : UInt32}

theorem lookupNone {written : List (UInt64 × UInt32)} {key : UInt64} :
    written.lookup key = none ↔ key ∉ written.map Prod.fst := by
  induction written with
  | nil => simp
  | cons entry rest ih =>
    obtain ⟨k, v⟩ := entry
    by_cases same : key = k
    · simp [same]
    · have different : (key == k) = false := by simpa using same
      simp [List.lookup_cons, different, same, ih]

theorem lookupCons (key k : UInt64) (value : UInt32) (written : List (UInt64 × UInt32)) :
    ((key, value) :: written).lookup k = if k = key then some value else written.lookup k := by
  by_cases same : k = key
  · simp [same]
  · have different : (k == key) = false := by simpa using same
    simp [List.lookup_cons, different, same]

theorem absentThere (holding : Holding mix written map)
    (allowed : (Call.insert key value).Allowed written) : map.find key = none := by
  rw [holding.found]
  exact lookupNone.mpr allowed

theorem presentThere (holding : Holding mix written map)
    (allowed : (Call.assignExisting key value).Allowed written) :
    ∃ old, map.find key = some old := by
  rw [holding.found]
  cases here : written.lookup key with
  | none => exact absurd allowed (lookupNone.mp here)
  | some old => exact ⟨old, rfl⟩

theorem reserveHolding (holding : Holding mix written map) (n : Nat) :
    Holding mix written (map.reserve n) ∧ map.capacity ≤ (map.reserve n).capacity := by
  unfold reserve
  split
  · rename_i grows
    obtain ⟨valid, size, capacity, hash, same⟩ := rehashValid holding.valid _ (capacityForPower n)
    refine ⟨⟨valid, hash.trans holding.hash, fun key => ?_, size.trans holding.size⟩, ?_⟩
    · rw [← holding.found]
      exact Option.ext (fun v => same key v)
    · rw [capacity]
      omega
  · exact ⟨holding, Nat.le_refl _⟩

theorem insertKept (valid : Valid map) (absent : map.find key = none) {memory : Bool}
    (inserted : map.insert memory key value = some map') :
    map'.size = map.size + 1 ∧ map.capacity ≤ map'.capacity ∧ map'.hash = map.hash := by
  have room := valid.room
  unfold insert at inserted
  split at inserted
  · split at inserted
    · obtain ⟨k, hk⟩ := valid.power
      obtain ⟨grown, size, capacity, hash, same⟩ :=
        rehashValid valid (2 * map.capacity) ⟨k + 1, by omega⟩
      have still : (map.rehash (2 * map.capacity)).find key = none := by
        simp [Option.eq_none_iff_forall_ne_some, same, absent]
      obtain ⟨_, size', capacity', hash', _⟩ := placeValid grown still (by omega) value
      cases Option.some.inj inserted
      exact ⟨by omega, by omega, hash'.trans hash⟩
    · contradiction
  · obtain ⟨_, size, capacity, hash, _⟩ := placeValid valid absent (by omega) value
    cases Option.some.inj inserted
    exact ⟨size, by omega, hash⟩

theorem insertHolding (holding : Holding mix written map)
    (allowed : (Call.insert key value).Allowed written) {memory : Bool}
    (inserted : map.insert memory key value = some map') :
    Holding mix ((key, value) :: written) map' ∧ map.capacity ≤ map'.capacity := by
  have absent := absentThere holding allowed
  obtain ⟨valid, reads⟩ := insertValid holding.valid absent inserted
  obtain ⟨size, capacity, hash⟩ := insertKept holding.valid absent inserted
  refine ⟨⟨valid, hash.trans holding.hash, fun k => ?_, ?_⟩, capacity⟩
  · rw [reads, lookupCons, holding.found]
  · have fresh : key ∉ written.map Prod.fst := allowed
    rw [size, holding.size, List.map_cons, List.dedup_cons_of_notMem fresh, List.length_cons]

theorem assignHolding (holding : Holding mix written map)
    (allowed : (Call.assignExisting key value).Allowed written) :
    Holding mix ((key, value) :: written) (map.assignExisting key value) ∧
      map.capacity ≤ (map.assignExisting key value).capacity := by
  obtain ⟨old, present⟩ := presentThere holding allowed
  obtain ⟨valid, reads⟩ := @assignExistingValid map key value holding.valid old present
  obtain ⟨size, capacity, hash⟩ : (map.assignExisting key value).size = map.size ∧
      (map.assignExisting key value).capacity = map.capacity ∧
      (map.assignExisting key value).hash = map.hash := by
    unfold assignExisting
    split <;> exact ⟨rfl, rfl, rfl⟩
  refine ⟨⟨valid, hash.trans holding.hash, fun k => ?_, ?_⟩, Nat.le_of_eq capacity.symm⟩
  · rw [reads, lookupCons, holding.found]
  · have known : key ∈ written.map Prod.fst := allowed
    rw [size, holding.size, List.map_cons, List.dedup_cons_of_mem known]

theorem callHolding (holding : Holding mix written map) {call : Call}
    (allowed : call.Allowed written) {memory : Bool} {outcome : Except Unit Unit}
    (ran : (call.perform memory).run.run map = (outcome, map')) :
    (outcome = .ok () ∧ Holding mix (call.writes ++ written) map' ∧ map.capacity ≤ map'.capacity) ∨
      (outcome = .error () ∧ map' = map) := by
  cases call with
  | reserve n =>
    rw [Call.perform, reserveRuns] at ran
    split at ran
    · cases ran
      exact .inr ⟨rfl, rfl⟩
    · cases ran
      exact .inl ⟨rfl, reserveHolding holding n⟩
  | insert key value =>
    rw [Call.perform, insertRuns] at ran
    cases inserted : map.insert memory key value with
    | none =>
      rw [inserted] at ran
      cases ran
      exact .inr ⟨rfl, rfl⟩
    | some grown =>
      rw [inserted] at ran
      cases ran
      exact .inl ⟨rfl, insertHolding holding allowed inserted⟩
  | assignExisting key value =>
    cases ran
    exact .inl ⟨rfl, assignHolding holding allowed⟩

end Steps

theorem runHolding {mix : UInt64 → UInt64} {written : List (UInt64 × UInt32)} {map : FlatHashMap}
    (run : Run mix written map) : Holding mix written map := by
  induction run with
  | start =>
    obtain ⟨valid, absent⟩ := emptyWithValid mix
    exact ⟨valid, rfl, fun key => by rw [absent]; rfl, rfl⟩
  | returned memory call run allowed outcome holding =>
    rcases callHolding holding allowed outcome with ⟨_, kept, _⟩ | ⟨impossible, _⟩
    · exact kept
    · contradiction
  | thrown memory call run allowed outcome holding =>
    rcases callHolding holding allowed outcome with ⟨impossible, _⟩ | ⟨_, same⟩
    · contradiction
    · exact same ▸ holding

def Vacant (map : FlatHashMap) : Prop := ∃ idx < map.capacity, (map.slots.read idx).occupied = false

def WalksEnd (map : FlatHashMap) : Prop := ∀ key, (map.probe key).isSome ∧ (map.vacancy key).isSome

/- The table while `rehash` fills it, after the first `n` slots of the old one. -/
def refilled (map : FlatHashMap) (newCapacity n : Nat) : FlatHashMap :=
  placeAll map.slots ⟨map.hash, Buffer.replicate newCapacity {}, newCapacity, newCapacity - 1, 0⟩ n

theorem rehashRefills (map : FlatHashMap) (newCapacity : Nat) :
    map.rehash newCapacity = map.refilled (max newCapacity (capacityFor map.size)) map.slots.size :=
  rfl

theorem capacityForLoad (n : Nat) : n ≤ capacityFor n * 7 / 10 := by
  have := leBitCeil (n * 10 / 7 + 1)
  unfold capacityFor
  omega

theorem vacantFree {map : FlatHashMap} {idx : Nat} :
    map.cells idx = none ↔ (map.slots.read idx).occupied = false := by
  unfold cells
  split <;> simp_all

theorem vacancyEnds {map : FlatHashMap} (power : ∃ k, map.capacity = 2 ^ k)
    (mask : map.mask = map.capacity - 1) (free : ∃ p < map.capacity, map.cells p = none)
    (key : UInt64) : (map.vacancy key).isSome := by
  obtain ⟨p, inside, empty⟩ := free
  have homed : home map.hash map.capacity key < map.capacity := Nat.mod_lt _ (by omega)
  obtain ⟨_, _, found, _⟩ := firstStop (isFree map.cells) homed inside (by simp [isFree, empty])
  rw [vacancySeek power mask, found]
  rfl

theorem probeEnds {map : FlatHashMap} (valid : Valid map) (key : UInt64) :
    (map.probe key).isSome := by
  obtain ⟨p, inside, empty⟩ := someFree valid
  obtain ⟨_, _, found, _⟩ := firstStop (stopsFor map.cells key) (homeInside valid key) inside
    (by simp [stopsFor, empty])
  rw [probeSeek valid, found]
  rfl

theorem refillNeverNests {map : FlatHashMap} (valid : Valid map) {newCapacity : Nat}
    (power : ∃ k, newCapacity = 2 ^ k) {n : Nat} (inside : n < map.slots.size)
    (taken : (map.slots.read n).occupied = true) :
    (map.refilled (max newCapacity (capacityFor map.size)) n).size + 1 ≤
        (map.refilled (max newCapacity (capacityFor map.size)) n).capacity * 7 / 10 ∧
      ∀ key, ((map.refilled (max newCapacity (capacityFor map.size)) n).vacancy key).isSome := by
  have grown := maxPower power (capacityForPower map.size)
  have loaded := capacityForLoad map.size
  have room := capacityForRoom map.size
  have within : n < map.capacity := valid.storage ▸ inside
  have copied := replaceCopied valid grown (by omega) n (Nat.le_of_lt within)
  change Copied map.hash map.cells n _
    (map.refilled (max newCapacity (capacityFor map.size)) n) at copied
  generalize map.refilled (max newCapacity (capacityFor map.size)) n = copy at copied ⊢
  have counted : copy.size + 1 ≤ map.size := by
    have here : (map.cells n).isSome = true := by
      cases cell : map.cells n with
      | none => rw [vacantFree.mp cell] at taken; contradiction
      | some _ => rfl
    have bounded : load (n + 1) map.cells ≤ load map.capacity map.cells :=
      List.Sublist.countP_le (List.range_sublist.mpr within)
    rw [loadSucc, here, ← valid.count, ← copied.filled] at bounded
    simpa using bounded
  refine ⟨by rw [copied.capacity]; omega, ?_⟩
  refine vacancyEnds (by rw [copied.capacity]; exact grown)
    (by rw [copied.mask, copied.capacity]) (freeCell ?_)
  rw [copied.capacity, ← copied.count]
  omega

structure FiniteMap (written : List (UInt64 × UInt32)) (map : FlatHashMap) : Prop where
  found : ∀ key, map.find key = written.lookup key
  size : map.size = (written.map Prod.fst).dedup.length
  power : ∃ k, map.capacity = 2 ^ k
  vacant : Vacant map
  walks : WalksEnd map
  rehashes : ∀ newCapacity, map.rehash newCapacity =
    map.refilled (max newCapacity (capacityFor map.size)) map.slots.size
  neverNests : ∀ newCapacity n, (∃ k, newCapacity = 2 ^ k) → n < map.slots.size →
    (map.slots.read n).occupied = true →
    (map.refilled (max newCapacity (capacityFor map.size)) n).size + 1 ≤
        (map.refilled (max newCapacity (capacityFor map.size)) n).capacity * 7 / 10 ∧
      ∀ key, ((map.refilled (max newCapacity (capacityFor map.size)) n).vacancy key).isSome
  grows : ∀ (call : Call) memory outcome map', call.Allowed written →
    (call.perform memory).run.run map = (outcome, map') →
      map.capacity ≤ map'.capacity ∧ (outcome = .error () → map' = map)

theorem finiteMap {mix : UInt64 → UInt64} {written : List (UInt64 × UInt32)} {map : FlatHashMap}
    (run : Run mix written map) : FiniteMap written map := by
  have holding := runHolding run
  have valid := holding.valid
  refine ⟨holding.found, holding.size, valid.power, ?_, fun key => ⟨probeEnds valid key, ?_⟩,
    rehashRefills map, ?_, ?_⟩
  · obtain ⟨p, inside, empty⟩ := someFree valid
    exact ⟨p, inside, vacantFree.mp empty⟩
  · exact vacancyEnds valid.power valid.mask (someFree valid) key
  · intro newCapacity n power inside taken
    exact refillNeverNests valid power inside taken
  · intro call memory outcome map' allowed ran
    rcases callHolding holding allowed ran with ⟨returned, _, capacity⟩ | ⟨_, same⟩
    · exact ⟨capacity, fun thrown => by rw [returned] at thrown; contradiction⟩
    · exact ⟨Nat.le_of_eq (by rw [same]), fun _ => same⟩

theorem finiteMapOfCollidingKeys : ∃ map, Run (fun _ => 0) [(5, 8), (9, 1), (5, 7)] map ∧
    FiniteMap [(5, 8), (9, 1), (5, 7)] map :=
  have run : Run (fun _ => 0) [(5, 8), (9, 1), (5, 7)]
      (((((emptyWith fun _ => 0).place 5 7).place 9 1).assignExisting 5 8)) :=
    .returned true (.assignExisting 5 8)
      (.returned true (.insert 9 1)
        (.returned true (.insert 5 7) .start (by simp [Call.Allowed]) rfl)
        (by simp [Call.Allowed]) rfl)
      (by simp [Call.Allowed]) rfl
  ⟨_, run, finiteMap run⟩

end Xmatch.FlatHashMap
