import Mathlib.Data.List.Induction
import Mathlib.Tactic.Common

/-! Sorting a list by insertion behind everything that is at least as good, so that the order
of arrival breaks ties. Changing or dropping elements and sorting can be done in either order. -/
namespace StableSort

variable {α : Type} (better : α → α → Prop) [DecidableRel better]

def place (x : α) : List α → List α
  | [] => [x]
  | first :: rest => if better x first then x :: first :: rest else first :: place x rest

def arranged (xs : List α) : List α := xs.foldl (fun ys x => place better x ys) []

structure Ranking : Prop where
  asymm : ∀ a b, better a b → ¬better b a
  compare : ∀ a b c, better a c → better a b ∨ better b c

section Placing
variable {better} {x : α} {xs ys : List α}

theorem arrangedNext (xs : List α) (x : α) :
    arranged better (xs ++ [x]) = place better x (arranged better xs) := by
  rw [arranged, List.foldl_append]
  rfl

theorem placePerm (x : α) (ys : List α) : (place better x ys).Perm (x :: ys) := by
  induction ys with
  | nil => exact List.Perm.refl _
  | cons first rest ih =>
    rw [place]
    split
    · exact List.Perm.refl _
    · exact (ih.cons first).trans (List.Perm.swap x first rest)

theorem arrangedPerm (xs : List α) : (arranged better xs).Perm xs := by
  induction xs using List.reverseRecOn with
  | nil => exact List.Perm.refl _
  | append_singleton xs x ih =>
    rw [arrangedNext]
    exact ((placePerm x _).trans (ih.cons x)).trans (List.perm_append_singleton x xs).symm

def Ordered (better : α → α → Prop) (ys : List α) : Prop := ys.Pairwise (fun a b => ¬better b a)

theorem placeOrdered (ranking : Ranking better) (x : α) :
    Ordered better ys → Ordered better (place better x ys) := by
  induction ys with
  | nil => exact fun _ => List.pairwise_singleton _ _
  | cons first rest ih =>
    intro ordered
    obtain ⟨behind, later⟩ := List.pairwise_cons.mp ordered
    rw [place]
    split
    · rename_i ahead
      refine List.pairwise_cons.mpr ⟨fun y member worse => ?_, ordered⟩
      rcases List.mem_cons.mp member with rfl | inRest
      · exact ranking.asymm x y ahead worse
      · rcases ranking.compare x y first ahead with better | better
        · exact ranking.asymm x y better worse
        · exact behind y inRest better
    · rename_i notAhead
      refine List.pairwise_cons.mpr ⟨fun y member => ?_, ih later⟩
      rcases List.mem_cons.mp ((placePerm x rest).subset member) with rfl | inRest
      · exact notAhead
      · exact behind y inRest

theorem arrangedOrdered (ranking : Ranking better) (xs : List α) :
    Ordered better (arranged better xs) := by
  induction xs using List.reverseRecOn with
  | nil => exact List.Pairwise.nil
  | append_singleton xs x ih =>
    rw [arrangedNext]
    exact placeOrdered ranking x ih

omit [DecidableRel better] in
theorem rankingTrans (ranking : Ranking better) {a b c : α} (ab : better a b) (bc : better b c) :
    better a c :=
  (ranking.compare a c b ab).resolve_right (ranking.asymm b c bc)

theorem placeSwap (ranking : Ranking better) {y : α} (apart : better x y ∨ better y x) :
    place better x (place better y ys) = place better y (place better x ys) := by
  induction ys with
  | nil =>
    rcases apart with first | first
    · simp only [place, first, if_true, ranking.asymm x y first, if_false]
    · simp only [place, first, if_true, ranking.asymm y x first, if_false]
  | cons first rest ih =>
    by_cases left : better x first
    · by_cases right : better y first
      · rcases apart with before | before
        · simp only [place, left, right, if_true, before, ranking.asymm x y before, if_false]
        · simp only [place, left, right, if_true, before, ranking.asymm y x before, if_false]
      · have behind : ¬better y x := fun before => right (rankingTrans ranking before left)
        simp only [place, left, right, if_true, if_false, behind]
    · by_cases right : better y first
      · have behind : ¬better x y := fun before => left (rankingTrans ranking before right)
        simp only [place, left, right, if_true, if_false, behind]
      · simp only [place, left, right, if_false, ih]

theorem placeFront (ahead : ∀ y ∈ ys, better x y) : place better x ys = x :: ys := by
  cases ys with
  | nil => rfl
  | cons first rest => rw [place, if_pos (ahead first List.mem_cons_self)]

theorem placeBack (behind : ∀ y ∈ ys, ¬better x y) : place better x ys = ys ++ [x] := by
  induction ys with
  | nil => rfl
  | cons first rest ih =>
    rw [place, if_neg (behind first List.mem_cons_self),
      ih (fun y member => behind y (List.mem_cons_of_mem _ member))]
    rfl

theorem arrangedSelf (xs : List α) : Ordered better xs → arranged better xs = xs := by
  induction xs using List.reverseRecOn with
  | nil => exact fun _ => rfl
  | append_singleton xs x ih =>
    intro ordered
    obtain ⟨front, _, behind⟩ := List.pairwise_append.mp ordered
    rw [arrangedNext, ih front,
      placeBack (fun y member => behind y member x (List.mem_singleton.mpr rfl))]

end Placing

/- The function drops elements or changes them, but not how they compare. -/
def Keeps (g : α → Option α) (xs : List α) : Prop :=
  ∀ x ∈ xs, ∀ y ∈ xs, ∀ x' ∈ g x, ∀ y' ∈ g y, (better x' y' ↔ better x y)

theorem keepsSubset {better : α → α → Prop} {g : α → Option α} {xs ys : List α}
    (keeps : Keeps better g xs) (sub : ys ⊆ xs) : Keeps better g ys :=
  fun x inX y inY => keeps x (sub inX) y (sub inY)

section Revising
variable {better} {g : α → Option α} {x : α} {xs ys : List α}

theorem placeRevised (ranking : Ranking better) : Ordered better ys → Keeps better g (x :: ys) →
    (place better x ys).filterMap g = match g x with
      | some x' => place better x' (ys.filterMap g)
      | none => ys.filterMap g := by
  induction ys with
  | nil =>
    intro _ _
    cases revised : g x <;> simp [place, revised]
  | cons first rest ih =>
    intro ordered keeps
    obtain ⟨behind, later⟩ := List.pairwise_cons.mp ordered
    have keepsRest : Keeps better g (x :: rest) := by
      intro a inA b inB
      refine keeps a ?_ b ?_
      · rcases List.mem_cons.mp inA with rfl | inRest
        · exact List.mem_cons_self
        · exact List.mem_cons_of_mem _ (List.mem_cons_of_mem _ inRest)
      · rcases List.mem_cons.mp inB with rfl | inRest
        · exact List.mem_cons_self
        · exact List.mem_cons_of_mem _ (List.mem_cons_of_mem _ inRest)
    rw [place]
    by_cases ahead : better x first
    · rw [if_pos ahead]
      cases revised : g x with
      | none => rw [List.filterMap_cons_none revised]
      | some x' =>
        rw [List.filterMap_cons_some revised]
        refine (placeFront (fun y' member => ?_)).symm
        obtain ⟨y, inRest, revisedY⟩ := List.mem_filterMap.mp member
        refine (keeps x List.mem_cons_self y (List.mem_cons_of_mem _ inRest) x' revised y'
          revisedY).mpr ?_
        rcases List.mem_cons.mp inRest with rfl | inRest
        · exact ahead
        · exact (ranking.compare x y first ahead).resolve_right (behind y inRest)
    · rw [if_neg ahead]
      cases revisedFirst : g first with
      | none =>
        rw [List.filterMap_cons_none revisedFirst, List.filterMap_cons_none revisedFirst,
          ih later keepsRest]
      | some first' =>
        rw [List.filterMap_cons_some revisedFirst, List.filterMap_cons_some revisedFirst,
          ih later keepsRest]
        cases revised : g x with
        | none => rfl
        | some x' =>
          have still : ¬better x' first' := fun ahead' =>
            ahead ((keeps x List.mem_cons_self first (List.mem_cons_of_mem _ List.mem_cons_self) x'
              revised first' revisedFirst).mp ahead')
          simp only [place, if_neg still]

theorem arrangedRevised (ranking : Ranking better) : ∀ xs : List α, Keeps better g xs →
    arranged better (xs.filterMap g) = (arranged better xs).filterMap g := by
  intro xs
  induction xs using List.reverseRecOn with
  | nil => exact fun _ => rfl
  | append_singleton xs x ih =>
    intro keeps
    have before := ih (keepsSubset keeps (List.subset_append_left _ _))
    have placed : Keeps better g (x :: arranged better xs) := by
      refine keepsSubset keeps (List.cons_subset.mpr ⟨by simp, fun y member => ?_⟩)
      exact List.mem_append_left _ ((arrangedPerm xs).subset member)
    rw [arrangedNext, placeRevised ranking (arrangedOrdered ranking xs) placed,
      List.filterMap_append]
    cases revised : g x with
    | none =>
      have nothing : [x].filterMap g = [] := by simp [revised]
      rw [nothing, List.append_nil, before]
    | some x' =>
      have only : [x].filterMap g = [x'] := by simp [revised]
      rw [only, arrangedNext, before]

theorem revisedSelf (same : ∀ x ∈ xs, g x = some x) : xs.filterMap g = xs := by
  induction xs with
  | nil => rfl
  | cons first rest ih =>
    rw [List.filterMap_cons_some (same first List.mem_cons_self),
      ih (fun x member => same x (List.mem_cons_of_mem _ member))]

end Revising
end StableSort
