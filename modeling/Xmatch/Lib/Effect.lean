import Mathlib.Tactic.Common
import Mathlib.Data.Int.Interval

/-! Stateful programs that may stop early, over any state and any reason to stop.
A program that stops keeps every change it made before: this is what a caller
sees of an exception that unwinds out of code which restores nothing.
`wp` is the weakest precondition for the two ways a program ends. -/
namespace Effect

abbrev Program (σ ε α : Type) := ExceptT ε (StateM σ) α

variable {σ ε α β : Type}

/- `x` from `s` ends with `post`, or stops early with `stop`. -/
def wp (x : Program σ ε α) (post : α → σ → Prop) (stop : ε → σ → Prop) (s : σ) : Prop :=
  match x.run.run s with
  | (.ok a, t) => post a t
  | (.error e, t) => stop e t

section Rules
variable {post : α → σ → Prop} {stop : ε → σ → Prop} {s : σ}

@[simp] theorem wpPure (a : α) : wp (pure a : Program σ ε α) post stop s ↔ post a s := Iff.rfl

@[simp] theorem wpThrow (e : ε) : wp (throw e : Program σ ε α) post stop s ↔ stop e s := Iff.rfl

@[simp] theorem wpGet {post : σ → σ → Prop} :
    wp (get : Program σ ε σ) post stop s ↔ post s s := Iff.rfl

@[simp] theorem wpModify {post : PUnit → σ → Prop} (f : σ → σ) :
    wp (modify f : Program σ ε PUnit) post stop s ↔ post ⟨⟩ (f s) := Iff.rfl

@[simp] theorem wpBind (x : Program σ ε α) (f : α → Program σ ε β) {post : β → σ → Prop} :
    wp (x >>= f) post stop s ↔ wp x (fun a t => wp (f a) post stop t) stop s := by
  have step : (x >>= f).run.run s = match x.run.run s with
      | (.ok a, t) => (f a).run.run t
      | (.error e, t) => (.error e, t) := by
    change (ExceptT.bindCont f (x.run.run s).1).run (x.run.run s).2 = _
    rcases x.run.run s with ⟨outcome, t⟩
    cases outcome <;> rfl
  unfold wp
  rw [step]
  rcases x.run.run s with ⟨outcome, t⟩
  cases outcome <;> rfl

theorem wpIte {p : Prop} [Decidable p] (x y : Program σ ε α) :
    wp (if p then x else y) post stop s ↔
      (p → wp x post stop s) ∧ (¬p → wp y post stop s) := by
  by_cases h : p <;> simp [h]

theorem wpMono {x : Program σ ε α} {post' : α → σ → Prop} {stop' : ε → σ → Prop}
    (h : wp x post stop s) (normal : ∀ a t, post a t → post' a t)
    (early : ∀ e t, stop e t → stop' e t) : wp x post' stop' s := by
  unfold wp at h ⊢
  revert h
  rcases x.run.run s with ⟨outcome, t⟩
  cases outcome with
  | ok a => exact normal a t
  | error e => exact early e t

theorem wpAnd {x : Program σ ε α} {post' : α → σ → Prop} {stop' : ε → σ → Prop}
    (h : wp x post stop s) (h' : wp x post' stop' s) :
    wp x (fun a t => post a t ∧ post' a t) (fun e t => stop e t ∧ stop' e t) s := by
  unfold wp at h h' ⊢
  revert h h'
  rcases x.run.run s with ⟨outcome, t⟩
  cases outcome with
  | ok a => exact And.intro
  | error e => exact And.intro

/- Two continuations that are related where the first part ends normally; where it stops early there
is one end only. -/
theorem runBindRel {R : Except ε β × σ → Except ε β × σ → Prop} {x : Program σ ε α}
    {f g : α → Program σ ε β} (first : wp x post stop s)
    (early : ∀ e t, stop e t → R (.error e, t) (.error e, t))
    (same : ∀ a t, post a t → R ((f a).run.run t) ((g a).run.run t)) :
    R ((x >>= f).run.run s) ((x >>= g).run.run s) := by
  change R ((ExceptT.bindCont f (x.run.run s).1).run (x.run.run s).2)
    ((ExceptT.bindCont g (x.run.run s).1).run (x.run.run s).2)
  unfold wp at first
  revert first
  rcases x.run.run s with ⟨outcome, t⟩
  cases outcome with
  | ok a => exact same a t
  | error e => exact early e t

theorem runBindCongr {x : Program σ ε α} {f g : α → Program σ ε β} (first : wp x post stop s)
    (same : ∀ a t, post a t → (f a).run.run t = (g a).run.run t) :
    (x >>= f).run.run s = (x >>= g).run.run s :=
  runBindRel first (fun _ _ _ => rfl) same

theorem runBindFirst {x y : Program σ ε α} {f : α → Program σ ε β}
    (same : x.run.run s = y.run.run s) : (x >>= f).run.run s = (y >>= f).run.run s := by
  change (ExceptT.bindCont f (x.run.run s).1).run (x.run.run s).2 =
    (ExceptT.bindCont f (y.run.run s).1).run (y.run.run s).2
  rw [same]

end Rules

def Keeps (I : σ → Prop) (x : Program σ ε α) : Prop :=
  ∀ s, I s → wp x (fun _ t => I t) (fun _ t => I t) s

section Keeping
variable {I : σ → Prop} {x y : Program σ ε α} {f : α → Program σ ε β}

theorem keepsPure (a : α) : Keeps I (pure a : Program σ ε α) := fun _ holds => holds

theorem keepsThrow (e : ε) : Keeps I (throw e : Program σ ε α) := fun _ holds => holds

theorem keepsModify {f : σ → σ} (kept : ∀ s, I s → I (f s)) :
    Keeps I (modify f : Program σ ε PUnit) := kept

theorem keepsBind (first : Keeps I x) (rest : ∀ a, Keeps I (f a)) : Keeps I (x >>= f) := by
  intro s holds
  rw [wpBind]
  exact wpMono (first s holds) (fun a t holds' => rest a t holds') (fun _ _ holds' => holds')

theorem keepsIte {p : Prop} [Decidable p] (yes : Keeps I x) (no : Keeps I y) :
    Keeps I (if p then x else y) := by
  by_cases h : p
  · rwa [if_pos h]
  · rwa [if_neg h]

end Keeping

/- From states with `I` the programs run alike; however they end `J` holds, and they stop early only
for reasons in `E`. -/
def Likewise (I J : σ → Prop) (E : ε → Prop) (x y : Program σ ε α) : Prop :=
  ∀ s, I s → x.run.run s = y.run.run s ∧ wp x (fun _ t => J t) (fun e t => E e ∧ J t) s

section Matching
variable {I J K : σ → Prop} {E : ε → Prop} {x y x' y' : Program σ ε α} {f g : α → Program σ ε β}

theorem likewisePure (a : α) (more : ∀ s, I s → J s) : Likewise I J E (pure a) (pure a) :=
  fun s holds => ⟨rfl, more s holds⟩

theorem likewiseThrow {e : ε} (reason : E e) (more : ∀ s, I s → J s) :
    Likewise I J E (throw e : Program σ ε α) (throw e) :=
  fun s holds => ⟨rfl, reason, more s holds⟩

theorem likewiseModify {f : σ → σ} (next : ∀ s, I s → J (f s)) :
    Likewise I J E (modify f : Program σ ε PUnit) (modify f) :=
  fun s holds => ⟨rfl, next s holds⟩

theorem likewiseGet {f g : σ → Program σ ε β} (rest : ∀ s, I s → (f s).run.run s = (g s).run.run s ∧
    wp (f s) (fun _ t => J t) (fun e t => E e ∧ J t) s) : Likewise I J E (get >>= f)
    (get >>= g) := rest

theorem likewiseBind (first : Likewise I J E x y) (later : ∀ s, J s → K s)
    (rest : ∀ a, Likewise J K E (f a) (g a)) : Likewise I K E (x >>= f) (y >>= g) := by
  intro s holds
  obtain ⟨same, ends⟩ := first s holds
  refine ⟨(runBindCongr ends (fun a t holds' => (rest a t holds').1)).trans (runBindFirst same), ?_⟩
  rw [wpBind]
  exact wpMono ends (fun a t holds' => (rest a t holds').2) (fun e t stopped =>
    ⟨stopped.1, later t stopped.2⟩)

theorem likewiseIte {p : Prop} [Decidable p] (yes : Likewise I J E x y)
    (no : Likewise I J E x' y') : Likewise I J E (if p then x else x') (if p then y else y') := by
  by_cases h : p
  · rwa [if_pos h, if_pos h]
  · rwa [if_neg h, if_neg h]

theorem likewiseMono {I' J' : σ → Prop} (likewise : Likewise I J E x y) (before : ∀ s, I' s → I s)
    (after : ∀ s, J s → J' s) : Likewise I' J' E x y := by
  intro s holds
  obtain ⟨same, ends⟩ := likewise s (before s holds)
  exact ⟨same, wpMono ends (fun _ t => after t) (fun _ t stopped => ⟨stopped.1, after t stopped.2⟩)⟩

end Matching

end Effect
