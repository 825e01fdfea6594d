import Mathlib.Algebra.Order.BigOperators.Group.List
import Mathlib.Tactic.Linarith
import Mathlib.Tactic.Ring

/-! Drawing an amount from the front of a list of stocks: those in front are used up first, and
at most one is left with less than it had. Drawing twice is drawing the sum, and no way of taking
as much from stocks in the order of their prices is cheaper. -/
namespace Drawing
variable {α : Type} (amount : α → Nat) (less : α → Nat → α)

def draw : Nat → List α → List α
  | _, [] => []
  | n, x :: xs =>
    if n = 0 then x :: xs else if amount x ≤ n then draw (n - amount x) xs else less x n :: xs

def drawn : Nat → List α → List (α × Nat)
  | _, [] => []
  | n, x :: xs =>
    if n = 0 then []
    else if amount x ≤ n then (x, amount x) :: drawn (n - amount x) xs
    else [(x, n)]

def total (xs : List α) : Nat := (xs.map amount).sum

def worth (price : α → Int) (gifts : List (α × Nat)) : Int :=
  (gifts.map (fun gift => price gift.1 * gift.2)).sum

/- What the stock is worth less than at a price of `t` for a unit, if it is worth less. -/
def slack (price : α → Int) (t : Int) (x : α) : Int := max 0 (t - price x) * amount x

structure Lessening : Prop where
  amount : ∀ x n, amount (less x n) = amount x - n
  twice : ∀ x m n, less (less x m) n = less x (m + n)

section Laws
variable {amount less}

theorem drawNothing (xs : List α) : draw amount less 0 xs = xs := by cases xs <;> simp [draw]

theorem drawnNothing (xs : List α) : drawn amount 0 xs = [] := by cases xs <;> simp [drawn]

theorem drawAdd (lessening : Lessening amount less) (xs : List α) : ∀ m n : Nat,
    draw amount less (m + n) xs = draw amount less n (draw amount less m xs) := by
  induction xs with
  | nil => exact fun _ _ => rfl
  | cons x xs ih =>
    intro m n
    by_cases none : m = 0
    · rw [none, drawNothing, Nat.zero_add]
    have some : ¬m + n = 0 := by omega
    by_cases first : amount x ≤ m
    · simp only [draw, none, some, if_false, first, if_true, show amount x ≤ m + n by omega]
      rw [show m + n - amount x = m - amount x + n by omega, ih]
    · by_cases all : n = 0
      · rw [all, Nat.add_zero, drawNothing]
      · by_cases both : amount x ≤ m + n
        · simp only [draw, none, some, all, if_false, first, both, if_true, lessening.amount,
            show amount x - m ≤ n by omega]
          rw [show n - (amount x - m) = m + n - amount x by omega]
        · simp only [draw, none, some, all, if_false, first, both, lessening.amount,
            show ¬amount x - m ≤ n by omega, lessening.twice]

theorem worthCons (price : α → Int) (x : α) (n : Nat) (gifts : List (α × Nat)) :
    worth price ((x, n) :: gifts) = price x * n + worth price gifts := by
  rw [worth, List.map_cons, List.sum_cons]
  rfl

theorem worthAdd (price : α → Int) (same : ∀ x n, price (less x n) = price x)
    (lessening : Lessening amount less) (xs : List α) :
    ∀ m n : Nat, worth price (drawn amount (m + n) xs) =
      worth price (drawn amount m xs) + worth price (drawn amount n (draw amount less m xs)) := by
  induction xs with
  | nil => exact fun _ _ => rfl
  | cons x xs ih =>
    intro m n
    by_cases none : m = 0
    · rw [none, drawNothing, drawnNothing, Nat.zero_add]
      exact (Int.zero_add _).symm
    have some : ¬m + n = 0 := by omega
    by_cases first : amount x ≤ m
    · simp only [draw, drawn, none, some, if_false, first, if_true, show amount x ≤ m + n by omega]
      rw [show m + n - amount x = m - amount x + n by omega, worthCons, worthCons, ih,
        Int.add_assoc]
    · by_cases all : n = 0
      · rw [all, Nat.add_zero, drawnNothing]
        exact (Int.add_zero _).symm
      · by_cases both : amount x ≤ m + n
        · simp only [draw, drawn, none, some, all, if_false, first, both, if_true, lessening.amount,
            show amount x - m ≤ n by omega]
          rw [show n - (amount x - m) = m + n - amount x by omega]
          simp only [worth, List.map_cons, List.sum_cons, List.map_nil, List.sum_nil, same]
          have whole : ((amount x : Nat) : Int) = m + ((amount x - m : Nat) : Int) := by omega
          rw [whole]
          ring
        · simp only [draw, drawn, none, some, all, if_false, first, both, lessening.amount,
            show ¬amount x - m ≤ n by omega]
          simp only [worth, List.map_cons, List.sum_cons, List.map_nil, List.sum_nil, same]
          push_cast
          ring

theorem drawnSublist (xs : List α) : ∀ n : Nat, ((drawn amount n xs).map Prod.fst).Sublist xs := by
  induction xs with
  | nil => exact fun _ => List.Sublist.refl _
  | cons x xs ih =>
    intro n
    unfold drawn
    split
    · exact List.nil_sublist _
    split
    · exact (ih _).cons_cons x
    · exact (List.nil_sublist xs).cons_cons x

theorem drawnPositive {xs : List α} (some : ∀ x ∈ xs, 0 < amount x) :
    ∀ n : Nat, ∀ gift ∈ drawn amount n xs, 0 < gift.2 := by
  induction xs with
  | nil => exact fun _ _ member => absurd member List.not_mem_nil
  | cons x xs ih =>
    intro n gift member
    unfold drawn at member
    split at member
    · contradiction
    split at member
    · rcases List.mem_cons.mp member with rfl | later
      · exact some x List.mem_cons_self
      · exact ih (fun y among => some y (List.mem_cons_of_mem _ among)) _ gift later
    · rw [List.mem_singleton.mp member]
      omega

theorem drawnTotal (xs : List α) :
    ∀ n : Nat, ((drawn amount n xs).map Prod.snd).sum = min n (total amount xs) := by
  induction xs with
  | nil => intro n; simp [drawn, total]
  | cons x xs ih =>
    intro n
    by_cases none : n = 0
    · simp [drawn, none]
    · by_cases first : amount x ≤ n
      · simp only [drawn, none, if_false, first, if_true, List.map_cons, List.sum_cons, ih, total]
        omega
      · simp only [drawn, none, if_false, first, List.map_cons, List.map_nil, List.sum_cons,
          List.sum_nil, total]
        omega

theorem drawTotal (lessening : Lessening amount less) (xs : List α) : ∀ n : Nat,
    total amount (draw amount less n xs) = total amount xs - n := by
  induction xs with
  | nil => intro n; simp [draw, total]
  | cons x xs ih =>
    intro n
    by_cases none : n = 0
    · simp [draw, none]
    · by_cases first : amount x ≤ n
      · simp only [draw, none, if_false, first, if_true, ih]
        simp only [total, List.map_cons, List.sum_cons]
        omega
      · simp only [draw, none, if_false, first, total, List.map_cons, List.sum_cons,
          lessening.amount]
        omega

theorem drawnFront (ys zs : List α) :
    ∀ n ≤ total amount ys, drawn amount n (ys ++ zs) = drawn amount n ys := by
  induction ys with
  | nil =>
    intro n few
    obtain rfl : n = 0 := Nat.le_zero.mp few
    exact drawnNothing _
  | cons y ys ih =>
    intro n few
    have whole : total amount (y :: ys) = amount y + total amount ys := List.sum_cons
    simp only [List.cons_append, drawn]
    rw [ih (n - amount y) (by omega)]

theorem drawnCapped {xs : List α} : (∀ x ∈ xs, 0 < amount x) → ∀ n : Nat,
    drawn amount n xs = drawn amount (min n (total amount xs)) xs := by
  induction xs with
  | nil => exact fun _ _ => rfl
  | cons x xs ih =>
    intro some n
    have whole : total amount (x :: xs) = amount x + total amount xs := List.sum_cons
    have positive := some x List.mem_cons_self
    by_cases none : n = 0
    · rw [none, Nat.zero_min]
    by_cases first : amount x ≤ n
    · simp only [drawn, none, if_false, first, if_true,
        show ¬min n (total amount (x :: xs)) = 0 by omega,
        show amount x ≤ min n (total amount (x :: xs)) by omega]
      rw [ih (fun y member => some y (List.mem_cons_of_mem _ member)),
        show min n (total amount (x :: xs)) - amount x =
          min (n - amount x) (total amount xs) by omega]
    · rw [show min n (total amount (x :: xs)) = n by omega]

theorem drawnAgain {β : Type} {size : β → Nat} {cut : β → Nat → β} {give : α → Nat → β}
    (sized : ∀ x n, size (give x n) = n)
    (cuts : ∀ x m n, cut (give x m) n = give x n) (xs : List α) : ∀ m n : Nat,
    (drawn size m ((drawn amount n xs).map (fun gift => give gift.1 gift.2))).map
      (fun gift => cut gift.1 gift.2) =
      (drawn amount (min m n) xs).map (fun gift => give gift.1 gift.2) := by
  induction xs with
  | nil => exact fun _ _ => rfl
  | cons x xs ih =>
    intro m n
    by_cases none : m = 0
    · rw [none, drawnNothing, Nat.zero_min, drawnNothing]
      rfl
    by_cases none' : n = 0
    · rw [none', drawnNothing, Nat.min_zero, drawnNothing]
      rfl
    have some : ¬min m n = 0 := by omega
    by_cases first : amount x ≤ n
    · by_cases again : amount x ≤ m
      · simp only [drawn, none, none', some, if_false, first, if_true, List.map_cons, sized, again,
          cuts, ih, Nat.le_min, and_self]
        rw [show min (m - amount x) (n - amount x) = min m n - amount x by omega]
      · simp only [drawn, none, none', if_false, first, if_true, List.map_cons, sized, again,
          cuts, List.map_nil,
          show min m n = m by omega]
    · simp only [drawn, none, none', some, if_false, first, List.map_cons, List.map_nil, sized,
        Nat.le_min, and_false]
      by_cases all : n ≤ m
      · simp only [all, if_true, List.map_cons, List.map_nil, cuts, Nat.min_eq_right]
      · simp only [all, if_false, List.map_cons, List.map_nil, cuts, show min m n = m by omega]

theorem drawFront (ys zs : List α) :
    ∀ n < total amount ys, draw amount less n (ys ++ zs) = draw amount less n ys ++ zs := by
  induction ys with
  | nil => exact fun n few => absurd few (Nat.not_lt_zero n)
  | cons y ys ih =>
    intro n few
    have whole : total amount (y :: ys) = amount y + total amount ys := List.sum_cons
    simp only [List.cons_append, draw]
    split
    · rfl
    split
    · exact ih (n - amount y) (by omega)
    · rfl

end Laws

section Prices
variable {amount less} {price : α → Int} {xs : List α} {x : α}

theorem slackNonneg (t : Int) (x : α) : 0 ≤ slack amount price t x :=
  Int.mul_nonneg (Int.le_max_left ..) (Int.natCast_nonneg _)

theorem slackNone {t : Int} (dear : ∀ x ∈ xs, t ≤ price x) :
    (xs.map (slack amount price t)).sum = 0 := by
  refine List.sum_eq_zero (fun s member => ?_)
  obtain ⟨x, among, rfl⟩ := List.mem_map.mp member
  have none : max 0 (t - price x) = 0 := Int.max_eq_left (Int.sub_nonpos_of_le (dear x among))
  rw [slack, none, Int.zero_mul]

theorem drawnTight (sorted : xs.Pairwise (fun x y => price x ≤ price y)) :
    ∀ n : Nat, xs ≠ [] → n ≤ total amount xs →
    ∃ t, (∀ m, (∀ x ∈ xs, m ≤ price x) → m ≤ t) ∧
      worth price (drawn amount n xs) + (xs.map (slack amount price t)).sum = t * n := by
  induction xs with
  | nil => exact fun n some => absurd rfl some
  | cons x xs ih =>
    intro n _ few
    have whole : total amount (x :: xs) = amount x + total amount xs := List.sum_cons
    obtain ⟨front, sorted⟩ := List.pairwise_cons.mp sorted
    by_cases done : n ≤ amount x
    · -- the first stock is enough: its price is the price
      refine ⟨price x, fun m low => low x List.mem_cons_self, ?_⟩
      have own : slack amount price (price x) x = 0 := by simp [slack]
      rw [List.map_cons, List.sum_cons, own, slackNone front, Int.add_zero, Int.add_zero]
      by_cases none : n = 0
      · rw [none, drawnNothing]
        exact (Int.mul_zero _).symm
      by_cases all : amount x ≤ n
      · have exact : amount x = n := Nat.le_antisymm all done
        simp only [drawn, none, if_false, exact, Nat.le_refl, if_true, Nat.sub_self, drawnNothing,
          worthCons]
        exact Int.add_zero _
      · simp only [drawn, none, if_false, all, worthCons]
        exact Int.add_zero _
    · have none : ¬n = 0 := by omega
      have all : amount x ≤ n := by omega
      have more : xs ≠ [] := by
        rintro rfl
        have empty : total amount ([] : List α) = 0 := rfl
        omega
      obtain ⟨t, above, tight⟩ := ih sorted (n - amount x) more (by omega)
      have dear : price x ≤ t := above _ front
      refine ⟨t, fun m low => Int.le_trans (low x List.mem_cons_self) dear, ?_⟩
      have own : slack amount price t x = (t - price x) * amount x := by
        rw [slack, Int.max_eq_right (Int.sub_nonneg_of_le dear)]
      have left : ((n - amount x : Nat) : Int) = n - amount x := by omega
      simp only [drawn, none, if_false, all, if_true, worthCons, List.map_cons, List.sum_cons, own]
      rw [left] at tight
      linarith

theorem worthTight (t : Int) (gifts : List (α × Nat))
    (each : ∀ gift ∈ gifts, gift.2 ≤ amount gift.1) :
    t * ((gifts.map Prod.snd).sum : Nat) ≤
      worth price gifts + ((gifts.map Prod.fst).map (slack amount price t)).sum := by
  induction gifts with
  | nil => simp [worth]
  | cons gift gifts ih =>
    obtain ⟨x, n⟩ := gift
    have later := ih (fun gift member => each gift (List.mem_cons_of_mem _ member))
    have own : n ≤ amount x := each (x, n) List.mem_cons_self
    have here : (t - price x) * n ≤ slack amount price t x :=
      Int.le_trans (Int.mul_le_mul_of_nonneg_right (Int.le_max_right 0 _) (Int.natCast_nonneg _))
        (Int.mul_le_mul_of_nonneg_left (Int.ofNat_le.mpr own) (Int.le_max_left ..))
    simp only [worthCons, List.map_cons, List.sum_cons, Nat.cast_add]
    linarith

theorem drawnCheapest (sorted : xs.Pairwise (fun x y => price x ≤ price y)) (gifts : List (α × Nat))
    (among : (gifts.map Prod.fst).Subperm xs) (each : ∀ gift ∈ gifts, gift.2 ≤ amount gift.1)
    (few : (gifts.map Prod.snd).sum ≤ total amount xs) :
    worth price (drawn amount (gifts.map Prod.snd).sum xs) ≤ worth price gifts := by
  by_cases some : xs = []
  · subst some
    have none := List.subperm_nil.mp among
    rw [List.map_eq_nil_iff] at none
    subst none
    exact Int.le_refl _
  · obtain ⟨t, _, tight⟩ := drawnTight sorted _ some few
    have least := @worthTight _ amount price t gifts each
    obtain ⟨some', perm, sub⟩ := among
    have fewer : ((gifts.map Prod.fst).map (slack amount price t)).sum ≤
        (xs.map (slack amount price t)).sum := by
      rw [← (perm.map _).sum_eq]
      exact (sub.map _).sum_le_sum (fun s member => by
        obtain ⟨x, _, rfl⟩ := List.mem_map.mp member
        exact slackNonneg t x)
    linarith

theorem worthMost (price : α → Int) (xs : List α) : ∀ n : Nat,
    worth price (drawn amount n xs) = worth price (drawn amount (min n (total amount xs)) xs) := by
  induction xs with
  | nil => exact fun _ => rfl
  | cons x xs ih =>
    intro n
    have whole : total amount (x :: xs) = amount x + total amount xs := List.sum_cons
    by_cases first : amount x ≤ n
    · by_cases none : n = 0
      · rw [none, Nat.zero_min]
      by_cases nothing : min n (total amount (x :: xs)) = 0
      · have empty : amount x = 0 := by omega
        have later := ih n
        rw [show min n (total amount xs) = 0 by omega, drawnNothing] at later
        simp only [drawn, none, if_false, Nat.zero_le, if_true, nothing, worthCons, empty,
          Nat.sub_zero, later]
        rw [Int.natCast_zero, Int.mul_zero, Int.zero_add]
      · simp only [drawn, none, nothing, if_false, first, if_true,
          show amount x ≤ min n (total amount (x :: xs)) by omega, worthCons]
        rw [ih, show min n (total amount (x :: xs)) - amount x =
          min (n - amount x) (total amount xs) by omega]
    · rw [show min n (total amount (x :: xs)) = n by omega]

end Prices
end Drawing
