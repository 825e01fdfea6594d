import Mathlib.Tactic.Common
import Mathlib.Data.Int.Interval

/-! Open addressing with linear probing over a ring of `n` cells. A walk starts
at the home of a key and moves one cell at a time. Cells are never emptied, so a
key is found by walking from its home to the first cell that is free or holds it. -/
namespace Probing

/- Walk from `i` to the first cell where `stop` holds; `none` when `fuel` cells
have been seen without one. -/
def seek (step : Nat → Nat) (stop : Nat → Bool) : Nat → Nat → Option Nat
  | 0, _ => none
  | fuel + 1, i => if stop i then some i else seek step stop fuel (step i)

theorem seekFirst {step : Nat → Nat} {stop : Nat → Bool} {fuel i j : Nat} (enough : j < fuel)
    (here : stop (step^[j] i) = true) (before : ∀ m < j, stop (step^[m] i) = false) :
    seek step stop fuel i = some (step^[j] i) := by
  induction fuel generalizing i j with
  | zero => omega
  | succ fuel ih =>
    cases j with
    | zero =>
      have stops : stop i = true := here
      simp [seek, stops]
    | succ j =>
      have first := before 0 (by omega)
      simp only [Function.iterate_zero, id_eq] at first
      simp only [seek, first, Bool.false_eq_true, if_false]
      exact ih (by omega) here (fun m below => before (m + 1) (by omega))

def ring (n i : Nat) : Nat := (i + 1) % n

theorem ringIterate {n i : Nat} (inside : i < n) (j : Nat) : (ring n)^[j] i = (i + j) % n := by
  induction j with
  | zero => simp [Nat.mod_eq_of_lt inside]
  | succ j ih => rw [Function.iterate_succ_apply', ih, ring, Nat.mod_add_mod, Nat.add_assoc]

theorem ringReaches {n i p : Nat} (inside : i < n) (cell : p < n) : ∃ j < n, (i + j) % n = p := by
  by_cases ahead : i ≤ p
  · exact ⟨p - i, by omega, by rw [Nat.add_sub_cancel' ahead, Nat.mod_eq_of_lt cell]⟩
  · refine ⟨p + n - i, by omega, ?_⟩
    rw [show i + (p + n - i) = p + n by omega, Nat.add_mod_right, Nat.mod_eq_of_lt cell]

variable {K V : Type}

/- Every key is reachable: the cells between its home and its cell are taken,
and by other keys. -/
def Sound (n : Nat) (home : K → Nat) (cells : Nat → Option (K × V)) : Prop :=
  ∀ i < n, ∀ k v, cells i = some (k, v) → ∃ j < n, i = (home k + j) % n ∧
    ∀ m < j, ∃ other, cells ((home k + m) % n) = some other ∧ other.1 ≠ k

def Holds (n : Nat) (cells : Nat → Option (K × V)) (k : K) (v : V) : Prop :=
  ∃ i < n, cells i = some (k, v)

def isFree (cells : Nat → Option (K × V)) (i : Nat) : Bool := (cells i).isNone

section Walks
variable {n : Nat} {home : K → Nat} {cells : Nat → Option (K × V)} {k : K} {v : V}

theorem firstStop (stop : Nat → Bool) {i p : Nat} (inside : i < n) (cell : p < n)
    (here : stop p = true) :
    ∃ j < n, seek (ring n) stop n i = some ((i + j) % n) ∧ stop ((i + j) % n) = true ∧
      ∀ m < j, stop ((i + m) % n) = false := by
  obtain ⟨j, enough, reach⟩ := ringReaches inside cell
  have ex : ∃ j, stop ((i + j) % n) = true := ⟨j, by rw [reach]; exact here⟩
  have least : Nat.find ex ≤ j := Nat.find_min' ex (by rw [reach]; exact here)
  have before : ∀ m < Nat.find ex, stop ((i + m) % n) = false := fun m below => by
    simpa using Nat.find_min ex below
  refine ⟨Nat.find ex, by omega, ?_, Nat.find_spec ex, before⟩
  rw [← ringIterate inside]
  refine seekFirst (by omega) ?_ ?_
  · rw [ringIterate inside]; exact Nat.find_spec ex
  · intro m below; rw [ringIterate inside]; exact before m below

/- The walk that looks for a free cell only ends at the same cell. -/
theorem seekFree (homed : home k < n) (absent : ∀ v, ¬Holds n cells k v) {p : Nat} (cell : p < n)
    (free : cells p = none) :
    ∃ j < n, seek (ring n) (isFree cells) n (home k) = some ((home k + j) % n) ∧
      cells ((home k + j) % n) = none ∧
      ∀ m < j, ∃ other, cells ((home k + m) % n) = some other ∧ other.1 ≠ k := by
  obtain ⟨j, enough, found, stops, before⟩ :=
    firstStop (isFree cells) homed cell (by simp [isFree, free])
  refine ⟨j, enough, found, by simpa [isFree] using stops, fun m below => ?_⟩
  have taken := before m below
  cases content : cells ((home k + m) % n) with
  | none => simp [isFree, content] at taken
  | some entry =>
    refine ⟨entry, rfl, fun same => ?_⟩
    exact absent entry.2 ⟨_, Nat.mod_lt _ (by omega), by rw [content, ← same]⟩

theorem soundFill (sound : Sound n home cells) {j : Nat} (enough : j < n)
    (free : cells ((home k + j) % n) = none)
    (taken : ∀ m < j, ∃ other, cells ((home k + m) % n) = some other ∧ other.1 ≠ k) :
    Sound n home (Function.update cells ((home k + j) % n) (some (k, v))) := by
  intro i inside k' v' here
  by_cases spot : i = (home k + j) % n
  · subst spot
    simp only [Function.update_self, Option.some.injEq, Prod.mk.injEq] at here
    obtain ⟨rfl, rfl⟩ := here
    refine ⟨j, enough, rfl, fun m below => ?_⟩
    obtain ⟨other, occupied, different⟩ := taken m below
    have elsewhere : (home k + m) % n ≠ (home k + j) % n := fun h => by simp [h, free] at occupied
    exact ⟨other, by rw [Function.update_of_ne elsewhere, occupied], different⟩
  · rw [Function.update_of_ne spot] at here
    obtain ⟨j', enough', spot', taken'⟩ := sound i inside k' v' here
    refine ⟨j', enough', spot', fun m below => ?_⟩
    obtain ⟨other, occupied, different⟩ := taken' m below
    have elsewhere : (home k' + m) % n ≠ (home k + j) % n := fun h => by simp [h, free] at occupied
    exact ⟨other, by rw [Function.update_of_ne elsewhere, occupied], different⟩

theorem holdsFill {p : Nat} (cell : p < n) (free : cells p = none) {k' : K} {v' : V} :
    Holds n (Function.update cells p (some (k, v))) k' v' ↔
      (k' = k ∧ v' = v) ∨ Holds n cells k' v' := by
  constructor
  · rintro ⟨i, inside, here⟩
    by_cases spot : i = p
    · subst spot
      simp only [Function.update_self, Option.some.injEq, Prod.mk.injEq] at here
      exact .inl ⟨here.1.symm, here.2.symm⟩
    · rw [Function.update_of_ne spot] at here
      exact .inr ⟨i, inside, here⟩
  · rintro (⟨rfl, rfl⟩ | ⟨i, inside, here⟩)
    · exact ⟨p, cell, by simp⟩
    · have spot : i ≠ p := fun h => by simp [h, free] at here
      exact ⟨i, inside, by rw [Function.update_of_ne spot, here]⟩

theorem soundOverwrite (sound : Sound n home cells) {p : Nat} (here : cells p = some (k, v))
    (v' : V) : Sound n home (Function.update cells p (some (k, v'))) := by
  have keys : ∀ i entry, Function.update cells p (some (k, v')) i = some entry →
      ∃ w, cells i = some (entry.1, w) := by
    intro i entry content
    by_cases spot : i = p
    · subst spot
      simp only [Function.update_self, Option.some.injEq] at content
      exact ⟨v, by rw [← content, here]⟩
    · rw [Function.update_of_ne spot] at content
      exact ⟨entry.2, content⟩
  intro i inside k' w content
  obtain ⟨w', old⟩ := keys i _ content
  obtain ⟨j, enough, spot, taken⟩ := sound i inside k' w' old
  refine ⟨j, enough, spot, fun m below => ?_⟩
  obtain ⟨other, occupied, different⟩ := taken m below
  by_cases same : (home k' + m) % n = p
  · rw [same, here] at occupied
    cases Option.some.inj occupied
    exact ⟨(k, v'), by rw [same, Function.update_self], different⟩
  · exact ⟨other, by rw [Function.update_of_ne same, occupied], different⟩

section Keys
variable [DecidableEq K]

def stopsFor (cells : Nat → Option (K × V)) (k : K) (i : Nat) : Bool :=
  match cells i with
  | none => true
  | some entry => entry.1 == k

theorem seekPresent (sound : Sound n home cells) (homed : home k < n) {i : Nat} (inside : i < n)
    (here : cells i = some (k, v)) : seek (ring n) (stopsFor cells k) n (home k) = some i := by
  obtain ⟨j, enough, spot, taken⟩ := sound i inside k v here
  have at' : (ring n)^[j] (home k) = i := by rw [ringIterate homed, spot]
  rw [← at']
  refine seekFirst enough ?_ ?_
  · rw [at']; simp [stopsFor, here]
  · intro m below
    obtain ⟨other, occupied, different⟩ := taken m below
    rw [ringIterate homed]
    simp [stopsFor, occupied, different]

theorem seekAbsent (homed : home k < n) (absent : ∀ v, ¬Holds n cells k v) {p : Nat} (cell : p < n)
    (free : cells p = none) :
    ∃ i < n, seek (ring n) (stopsFor cells k) n (home k) = some i ∧ cells i = none := by
  obtain ⟨j, _, found, stops, _⟩ :=
    firstStop (stopsFor cells k) homed cell (by simp [stopsFor, free])
  have inside : (home k + j) % n < n := Nat.mod_lt _ (by omega)
  refine ⟨_, inside, found, ?_⟩
  cases content : cells ((home k + j) % n) with
  | none => rfl
  | some entry =>
    obtain ⟨k', v'⟩ := entry
    have same : k' = k := by simpa [stopsFor, content] using stops
    exact absurd ⟨_, inside, same ▸ content⟩ (absent v')

theorem soundUnique (sound : Sound n home cells) (homed : home k < n) {i i' : Nat} {v' : V}
    (inside : i < n) (inside' : i' < n) (here : cells i = some (k, v))
    (here' : cells i' = some (k, v')) : i = i' := by
  have a := seekPresent sound homed inside here
  have b := seekPresent sound homed inside' here'
  exact Option.some.inj (a.symm.trans b)

theorem holdsUnique (sound : Sound n home cells) (homed : home k < n) {v' : V}
    (one : Holds n cells k v) (two : Holds n cells k v') : v = v' := by
  obtain ⟨i, inside, here⟩ := one
  obtain ⟨i', inside', here'⟩ := two
  have same := soundUnique sound homed inside inside' here here'
  subst same
  rw [here] at here'
  exact congrArg Prod.snd (Option.some.inj here')

theorem holdsOverwrite (sound : Sound n home cells) (homed : home k < n) {p : Nat} (cell : p < n)
    (here : cells p = some (k, v)) {v' w : V} {k' : K} :
    Holds n (Function.update cells p (some (k, v'))) k' w ↔
      if k' = k then w = v' else Holds n cells k' w := by
  constructor
  · rintro ⟨i, inside, content⟩
    by_cases spot : i = p
    · subst spot
      simp only [Function.update_self, Option.some.injEq, Prod.mk.injEq] at content
      simp [content.1, content.2]
    · rw [Function.update_of_ne spot] at content
      have other : k' ≠ k := fun h => spot (soundUnique sound homed inside cell (h ▸ content) here)
      rw [if_neg other]
      exact ⟨i, inside, content⟩
  · split
    · rename_i same
      rintro rfl
      exact ⟨p, cell, by simp [same]⟩
    · rename_i other
      rintro ⟨i, inside, content⟩
      have spot : i ≠ p := fun h => by
        subst h; rw [here] at content; cases Option.some.inj content; exact other rfl
      exact ⟨i, inside, by rw [Function.update_of_ne spot, content]⟩

end Keys
end Walks

def load (n : Nat) (cells : Nat → Option (K × V)) : Nat :=
  (List.range n).countP (fun i => (cells i).isSome)

theorem loadSucc (n : Nat) (cells : Nat → Option (K × V)) :
    load (n + 1) cells = load n cells + if (cells n).isSome then 1 else 0 := by
  simp [load, List.range_succ, List.countP_append, List.countP_singleton]

theorem loadFill {n p : Nat} {cells : Nat → Option (K × V)} (cell : p < n) (free : cells p = none)
    (entry : K × V) : load n (Function.update cells p (some entry)) = load n cells + 1 := by
  induction n with
  | zero => omega
  | succ n ih =>
    rw [loadSucc, loadSucc]
    by_cases last : p = n
    · subst last
      have low : load p (Function.update cells p (some entry)) = load p cells := by
        apply List.countP_congr
        intro i inside
        rw [Function.update_of_ne (Nat.ne_of_lt (List.mem_range.mp inside))]
      simp [low, free]
    · rw [ih (by omega), Function.update_of_ne (Ne.symm last)]
      omega

theorem freeCell {n : Nat} {cells : Nat → Option (K × V)} (room : load n cells < n) :
    ∃ p < n, cells p = none := by
  by_contra full
  push Not at full
  have all : load n cells = (List.range n).length := by
    apply List.countP_eq_length.mpr
    intro i inside
    exact Option.isSome_iff_ne_none.mpr (full i (List.mem_range.mp inside))
  simp at all
  omega

theorem loadCongr {n : Nat} {cells cells' : Nat → Option (K × V)}
    (same : ∀ i < n, (cells i).isSome = (cells' i).isSome) : load n cells = load n cells' := by
  apply List.countP_congr
  intro i inside
  rw [same i (List.mem_range.mp inside)]

end Probing
