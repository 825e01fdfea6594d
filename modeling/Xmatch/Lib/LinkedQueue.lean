import Mathlib.Tactic.Common
import Mathlib.Data.Int.Interval

/-! Intrusive doubly linked queues over an arena of nodes.
The links live in the nodes, the two ends outside; `nil` is the node name that
stands for "none". Several queues may share an arena as long as no node is in two
of them: every operation changes links of nodes of one queue only. -/
namespace LinkedQueue
variable {α : Type}

structure Links (α : Type) where
  next : α → α
  prev : α → α

structure Ends (α : Type) where
  head : α
  tail : α

def Chain (L : Links α) (after : α) : α → List α → Prop
  | _, [] => True
  | before, x :: xs => L.prev x = before ∧ L.next x = xs.headD after ∧ Chain L after x xs

theorem chainAppend {L : Links α} {after before : α} {xs ys : List α} :
    Chain L after before (xs ++ ys) ↔
      Chain L (ys.headD after) before xs ∧ Chain L after (xs.getLastD before) ys := by
  induction xs generalizing before with
  | nil => simp [Chain]
  | cons x xs ih =>
    have head : (xs ++ ys).headD after = xs.headD (ys.headD after) := by cases xs <;> simp
    have last : (x :: xs).getLastD before = xs.getLastD x := by cases xs <;> rfl
    simp only [List.cons_append, Chain, head, last, ih, and_assoc]

theorem chainCongr {L M : Links α} {after before : α} {xs : List α}
    (same : ∀ x ∈ xs, M.next x = L.next x ∧ M.prev x = L.prev x)
    (chain : Chain L after before xs) : Chain M after before xs := by
  induction xs generalizing before with
  | nil => trivial
  | cons x xs ih =>
    obtain ⟨back, forth, rest⟩ := chain
    obtain ⟨forth', back'⟩ := same x List.mem_cons_self
    exact ⟨back'.trans back, forth'.trans forth,
      ih (fun y hy => same y (List.mem_cons_of_mem _ hy)) rest⟩

theorem chainRedirectLast {L M : Links α} {after after' before : α} {xs : List α} {t : α}
    (chain : Chain L after before (xs ++ [t]))
    (same : ∀ x ∈ xs, M.next x = L.next x) (back : ∀ x ∈ xs ++ [t], M.prev x = L.prev x)
    (forth : M.next t = after') : Chain M after' before (xs ++ [t]) := by
  obtain ⟨left, right⟩ := chainAppend.mp chain
  refine chainAppend.mpr ⟨?_, ?_⟩
  · exact chainCongr (fun x hx => ⟨same x hx, back x (List.mem_append_left _ hx)⟩) left
  · exact ⟨(back t (by simp)).trans right.1, forth, trivial⟩

theorem chainRedirectFirst {L M : Links α} {after before before' : α} {xs : List α} {h : α}
    (chain : Chain L after before (h :: xs))
    (same : ∀ x ∈ xs, M.prev x = L.prev x) (forth : ∀ x ∈ h :: xs, M.next x = L.next x)
    (back : M.prev h = before') : Chain M after before' (h :: xs) :=
  ⟨back, (forth h (by simp)).trans chain.2.1,
    chainCongr (fun x hx => ⟨forth x (List.mem_cons_of_mem _ hx), same x hx⟩) chain.2.2⟩

/- The nodes of a queue in order: no node twice, `nil` not among them, both ends
and all links as the order says. -/
structure Queue (nil : α) (L : Links α) (E : Ends α) (xs : List α) : Prop where
  nodup : xs.Nodup
  real : nil ∉ xs
  head : E.head = xs.headD nil
  tail : E.tail = xs.getLastD nil
  chain : Chain L nil nil xs

theorem queueNil (nil : α) (L : Links α) : Queue nil L ⟨nil, nil⟩ [] :=
  ⟨List.nodup_nil, List.not_mem_nil, rfl, rfl, trivial⟩

theorem queueCongr {nil : α} {L M : Links α} {E : Ends α} {xs : List α} (q : Queue nil L E xs)
    (same : ∀ x ∈ xs, M.next x = L.next x ∧ M.prev x = L.prev x) : Queue nil M E xs :=
  ⟨q.nodup, q.real, q.head, q.tail, chainCongr same q.chain⟩

theorem headIsNil {nil : α} {L : Links α} {E : Ends α} {xs : List α} (q : Queue nil L E xs) :
    E.head = nil ↔ xs = [] := by
  cases xs with
  | nil => simp [q.head]
  | cons x xs =>
    have : x ≠ nil := fun h => q.real (h ▸ List.mem_cons_self)
    simp [q.head, this]

theorem tailIsNil {nil : α} {L : Links α} {E : Ends α} {xs : List α} (q : Queue nil L E xs) :
    E.tail = nil ↔ xs = [] := by
  rcases List.eq_nil_or_concat xs with rfl | ⟨ys, y, rfl⟩
  · simp [q.tail]
  · have : y ≠ nil := fun h => q.real (h ▸ by simp)
    simp [q.tail, this]

section Operations
variable [DecidableEq α] (nil : α)

def pushBack (L : Links α) (E : Ends α) (x : α) : Links α × Ends α :=
  (⟨if E.tail = nil then Function.update L.next x nil
      else Function.update (Function.update L.next x nil) E.tail x,
    Function.update L.prev x E.tail⟩,
   ⟨if E.tail = nil then x else E.head, x⟩)

def unlink (L : Links α) (E : Ends α) (x : α) : Links α × Ends α :=
  (⟨Function.update
      (if L.prev x = nil then L.next else Function.update L.next (L.prev x) (L.next x)) x nil,
    Function.update
      (if L.next x = nil then L.prev else Function.update L.prev (L.next x) (L.prev x)) x nil⟩,
   ⟨if L.prev x = nil then L.next x else E.head,
    if L.next x = nil then L.prev x else E.tail⟩)

def substitute (L : Links α) (E : Ends α) (x y : α) : Links α × Ends α :=
  (⟨Function.update
      (if L.prev x = nil then Function.update L.next y (L.next x)
        else Function.update (Function.update L.next y (L.next x)) (L.prev x) y) x nil,
    Function.update
      (if L.next x = nil then Function.update L.prev y (L.prev x)
        else Function.update (Function.update L.prev y (L.prev x)) (L.next x) y) x nil⟩,
   ⟨if L.prev x = nil then y else E.head,
    if L.next x = nil then y else E.tail⟩)

variable {nil} {L : Links α} {E : Ends α} {xs : List α}

theorem pushBackQueue (q : Queue nil L E xs) {x : α} (fresh : x ∉ xs) (real : x ≠ nil) :
    Queue nil (pushBack nil L E x).1 (pushBack nil L E x).2 (xs ++ [x]) := by
  have nodup : (xs ++ [x]).Nodup := by
    rw [List.nodup_append]
    refine ⟨q.nodup, by simp, ?_⟩
    rintro a ha b hb rfl
    exact fresh (List.mem_singleton.mp hb ▸ ha)
  have outside : nil ∉ xs ++ [x] := by simp [q.real, Ne.symm real]
  rcases List.eq_nil_or_concat xs with rfl | ⟨ys, t, rfl⟩
  · have empty : E.tail = nil := (tailIsNil q).mpr rfl
    exact ⟨nodup, outside, by simp [pushBack, empty], by simp [pushBack],
      by simp [pushBack, empty, Chain]⟩
  · rw [List.concat_eq_append] at *
    have tail : E.tail = t := by simpa using q.tail
    have tReal : t ≠ nil := fun h => q.real (by simp [h])
    have tx : t ≠ x := fun h => fresh (by simp [h])
    have tNew : t ∉ ys := fun h => by
      have := q.nodup; rw [List.nodup_append] at this
      exact this.2.2 t h t (by simp) rfl
    have step := q.chain
    refine ⟨nodup, outside, ?_, by simp [pushBack], ?_⟩
    · have := q.head
      cases ys <;> simp_all [pushBack]
    · refine chainAppend.mpr ⟨chainRedirectLast step ?_ ?_ ?_, ?_⟩
      · intro y hy
        have yt : y ≠ t := fun h => tNew (h ▸ hy)
        have yx : y ≠ x := fun h => fresh (by simp [← h, hy])
        simp [pushBack, tail, tReal, yt, yx]
      · intro y hy
        have yx : y ≠ x := fun h => fresh (h ▸ hy)
        simp [pushBack, yx]
      · simp [pushBack, tail, tReal]
      · simp [Chain, pushBack, tail, tReal, tx.symm]

omit [DecidableEq α] in
theorem neighbours {ys zs : List α} {x : α} (q : Queue nil L E (ys ++ x :: zs)) :
    L.prev x = ys.getLastD nil ∧ L.next x = zs.headD nil :=
  have h := (chainAppend.mp q.chain).2
  ⟨h.1, h.2.1⟩

theorem unlinkQueue {ys zs : List α} {x : α} (q : Queue nil L E (ys ++ x :: zs)) :
    Queue nil (unlink nil L E x).1 (unlink nil L E x).2 (ys ++ zs) := by
  obtain ⟨left, back, forth, right⟩ := chainAppend.mp q.chain
  have parts := q.nodup
  rw [List.nodup_append] at parts
  obtain ⟨ysNodup, xzs, apart⟩ := parts
  obtain ⟨xNew, zsNodup⟩ := List.nodup_cons.mp xzs
  have ysx : ∀ y ∈ ys, y ≠ x := fun y hy => apart y hy x (by simp)
  have zsx : ∀ z ∈ zs, z ≠ x := fun z hz h => xNew (h ▸ hz)
  have disjoint : ∀ y ∈ ys, ∀ z ∈ zs, y ≠ z := fun y hy z hz => apart y hy z (by simp [hz])
  have ysReal : ∀ y ∈ ys, y ≠ nil := fun y hy h => q.real (by simp [← h, hy])
  have zsReal : ∀ z ∈ zs, z ≠ nil := fun z hz h => q.real (by simp [← h, hz])
  refine ⟨?_, ?_, ?_, ?_, chainAppend.mpr ⟨?_, ?_⟩⟩
  · rw [List.nodup_append]
    exact ⟨ysNodup, zsNodup, disjoint⟩
  · intro h
    exact q.real (by rcases List.mem_append.mp h with h | h <;> simp [h])
  · have := q.head
    cases ys with
    | nil => simp_all [unlink]
    | cons y ys =>
      have : (y :: ys).getLastD nil ≠ nil := ysReal _ (by simp [List.getLastD])
      simp_all [unlink]
  · have := q.tail
    cases zs with
    | nil => simp_all [unlink]
    | cons z zs => simp_all [unlink]
  · rcases List.eq_nil_or_concat ys with rfl | ⟨ys, t, rfl⟩
    · trivial
    · rw [List.concat_eq_append] at *
      have tReal : t ≠ nil := ysReal t (by simp)
      have tx : t ≠ x := ysx t (by simp)
      have prevX : L.prev x = t := by simpa using back
      have tNew : t ∉ ys := fun h => by
        rw [List.nodup_append] at ysNodup
        exact ysNodup.2.2 t h t (by simp) rfl
      refine chainRedirectLast left ?_ ?_ ?_
      · intro y hy
        have yt : y ≠ t := fun h => tNew (h ▸ hy)
        have yx : y ≠ x := ysx y (by simp [hy])
        simp [unlink, prevX, tReal, yt, yx]
      · intro y hy
        have yx := ysx y hy
        have yz : zs ≠ [] → y ≠ zs.headD nil := fun h => by
          cases zs with
          | nil => contradiction
          | cons z zs => exact disjoint y hy z (by simp)
        cases zs <;> simp_all [unlink]
      · simp [unlink, prevX, tReal, tx, forth]
  · cases zs with
    | nil => trivial
    | cons z zs =>
      have zReal : z ≠ nil := zsReal z (by simp)
      have zx : z ≠ x := zsx z (by simp)
      have nextX : L.next x = z := by simpa using forth
      have zNew : z ∉ zs := (List.nodup_cons.mp zsNodup).1
      refine chainRedirectFirst right ?_ ?_ ?_
      · intro y hy
        have yz : y ≠ z := fun h => zNew (h ▸ hy)
        have yx : y ≠ x := zsx y (by simp [hy])
        simp [unlink, nextX, zReal, yz, yx]
      · intro y hy
        have yx := zsx y hy
        by_cases empty : L.prev x = nil
        · simp [unlink, empty, yx]
        · have yl : y ≠ L.prev x := by
            rw [back] at empty ⊢
            rcases List.eq_nil_or_concat ys with rfl | ⟨ys, t, rfl⟩
            · simp at empty
            · simpa using (disjoint t (by simp) y hy).symm
          simp [unlink, empty, yx, yl]
      · simp [unlink, nextX, zReal, zx, back]

theorem substituteQueue {ys zs : List α} {x y : α} (q : Queue nil L E (ys ++ x :: zs))
    (fresh : y ∉ ys ++ x :: zs) (real : y ≠ nil) :
    Queue nil (substitute nil L E x y).1 (substitute nil L E x y).2 (ys ++ y :: zs) := by
  obtain ⟨left, back, forth, right⟩ := chainAppend.mp q.chain
  have parts := q.nodup
  rw [List.nodup_append] at parts
  obtain ⟨ysNodup, xzs, apart⟩ := parts
  obtain ⟨xNew, zsNodup⟩ := List.nodup_cons.mp xzs
  have yx : y ≠ x := fun h => fresh (by simp [h])
  have ysx : ∀ w ∈ ys, w ≠ x := fun w hw => apart w hw x (by simp)
  have ysy : ∀ w ∈ ys, w ≠ y := fun w hw h => fresh (by simp [← h, hw])
  have zsx : ∀ z ∈ zs, z ≠ x := fun z hz h => xNew (h ▸ hz)
  have zsy : ∀ z ∈ zs, z ≠ y := fun z hz h => fresh (by simp [← h, hz])
  have disjoint : ∀ w ∈ ys, ∀ z ∈ zs, w ≠ z := fun w hw z hz => apart w hw z (by simp [hz])
  have ysReal : ∀ w ∈ ys, w ≠ nil := fun w hw h => q.real (by simp [← h, hw])
  have zsReal : ∀ z ∈ zs, z ≠ nil := fun z hz h => q.real (by simp [← h, hz])
  refine ⟨?_, ?_, ?_, ?_, chainAppend.mpr ⟨?_, ?_, ?_, ?_⟩⟩
  · rw [List.nodup_append, List.nodup_cons]
    refine ⟨ysNodup, ⟨fun h => zsy y h rfl, zsNodup⟩, ?_⟩
    intro a ha b hb
    rcases List.mem_cons.mp hb with rfl | hb
    · exact ysy a ha
    · exact disjoint a ha b hb
  · intro h
    rcases List.mem_append.mp h with h | h
    · exact ysReal nil h rfl
    · rcases List.mem_cons.mp h with h | h
      · exact real h.symm
      · exact zsReal nil h rfl
  · have := q.head
    cases ys with
    | nil => simp_all [substitute]
    | cons w ys =>
      have : (w :: ys).getLastD nil ≠ nil := ysReal _ (by simp [List.getLastD])
      simp_all [substitute]
  · have := q.tail
    cases zs with
    | nil => simp_all [substitute]
    | cons z zs => simp_all [substitute]
  · rcases List.eq_nil_or_concat ys with rfl | ⟨ys, t, rfl⟩
    · trivial
    · rw [List.concat_eq_append] at *
      have tReal : t ≠ nil := ysReal t (by simp)
      have prevX : L.prev x = t := by simpa using back
      have tNew : t ∉ ys := fun h => by
        rw [List.nodup_append] at ysNodup
        exact ysNodup.2.2 t h t (by simp) rfl
      refine chainRedirectLast left ?_ ?_ ?_
      · intro w hw
        have wt : w ≠ t := fun h => tNew (h ▸ hw)
        have wx : w ≠ x := ysx w (by simp [hw])
        have wy : w ≠ y := ysy w (by simp [hw])
        simp [substitute, prevX, tReal, wt, wx, wy]
      · intro w hw
        have wx := ysx w hw
        have wy := ysy w hw
        cases zs with
        | nil => simp_all [substitute]
        | cons z zs =>
          have wz := disjoint w hw z (by simp)
          simp_all [substitute]
      · simp [substitute, prevX, tReal, ysx t (by simp)]
  · cases zs <;> simp_all [substitute]
  · by_cases empty : L.prev x = nil
    · simp [substitute, empty, yx, forth]
    · have yl : y ≠ L.prev x := by
        rw [back] at empty ⊢
        rcases List.eq_nil_or_concat ys with rfl | ⟨ys, t, rfl⟩
        · simp at empty
        · simpa using (ysy t (by simp)).symm
      simp [substitute, empty, yx, yl, forth]
  · cases zs with
    | nil => trivial
    | cons z zs =>
      have zReal : z ≠ nil := zsReal z (by simp)
      have nextX : L.next x = z := by simpa using forth
      have zNew : z ∉ zs := (List.nodup_cons.mp zsNodup).1
      refine chainRedirectFirst right ?_ ?_ ?_
      · intro w hw
        have wz : w ≠ z := fun h => zNew (h ▸ hw)
        have wx : w ≠ x := zsx w (by simp [hw])
        have wy : w ≠ y := zsy w (by simp [hw])
        simp [substitute, nextX, zReal, wz, wx, wy]
      · intro w hw
        have wx := zsx w hw
        have wy := zsy w hw
        by_cases empty : L.prev x = nil
        · simp [substitute, empty, wx, wy]
        · have wl : w ≠ L.prev x := by
            rw [back] at empty ⊢
            rcases List.eq_nil_or_concat ys with rfl | ⟨ys, t, rfl⟩
            · simp at empty
            · simpa using (disjoint t (by simp) w hw).symm
          simp [substitute, empty, wx, wy, wl]
      · simp [substitute, nextX, zReal, zsx z (by simp)]

omit [DecidableEq α] in
theorem tailQueued (q : Queue nil L E xs) (real : E.tail ≠ nil) : E.tail ∈ xs := by
  rcases List.eq_nil_or_concat xs with rfl | ⟨ys, t, rfl⟩
  · exact absurd ((tailIsNil q).mpr rfl) real
  · rw [q.tail]
    simp

omit [DecidableEq α] in
theorem neighbourQueued {ys zs : List α} {x : α} (q : Queue nil L E (ys ++ x :: zs)) :
    (L.prev x = nil ∨ L.prev x ∈ ys) ∧ (L.next x = nil ∨ L.next x ∈ zs) := by
  obtain ⟨back, forth⟩ := neighbours q
  constructor
  · rcases List.eq_nil_or_concat ys with rfl | ⟨ys, t, rfl⟩
    · exact .inl back
    · exact .inr (by rw [back]; simp)
  · cases zs with
    | nil => exact .inl forth
    | cons z zs => exact .inr (by rw [forth]; simp)

end Operations
end LinkedQueue
