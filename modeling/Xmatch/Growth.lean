import Xmatch.Engine

/-! What no request ever takes back: the slots handed out, the books and their ladders. -/
namespace Xmatch
namespace Engine
open OrderBook Effect

structure Grown (before after : Engine) : Prop where
  slots : before.pool.size ≤ after.pool.size
  books : after.books.size = before.books.size
  frame : ∀ b, SameFrame (before.books.read b) (after.books.read b)
  configured : after.configured = before.configured
  instrumentIndex : after.instrumentIndex = before.instrumentIndex

theorem grownRefl (engine : Engine) : Grown engine engine :=
  ⟨Nat.le_refl _, rfl, fun _ => sameFrameRefl _, rfl, rfl⟩

theorem grownTrans {a b c : Engine} (ab : Grown a b) (bc : Grown b c) : Grown a c :=
  ⟨Nat.le_trans ab.slots bc.slots, bc.books.trans ab.books, fun i =>
    sameFrameTrans (ab.frame i) (bc.frame i),
    bc.configured.trans ab.configured, bc.instrumentIndex.trans ab.instrumentIndex⟩

theorem grownBook (engine : Engine) (b : Nat) {updated : OrderPool × OrderBook}
    (size : updated.1.size = engine.pool.size) (frame : SameFrame (engine.books.read b) updated.2) :
    Grown engine (engine.putBook b updated) := by
  refine ⟨Nat.le_of_eq size.symm, rfl, fun i => ?_, rfl, rfl⟩
  rw [putBook, Buffer.readWrite]
  split
  · rename_i same
    rw [same]
    exact frame
  · exact sameFrameRefl _

/- What a session adds is at its end; the listener let every new callback but the last pass. -/
structure Continued (env : Env) (before after : Session) : Prop where
  grown : Grown before.engine after.engine
  log : before.log <+: after.log
  passed : ∀ k, before.log.length < k → k < after.log.length →
    env.throws (after.events.take k) = false

/- However it ends, the program only adds; it stops at the listener exactly when that throws. -/
structure Grows (env : Env) {α : Type} (program : Op α) : Prop where
  ends : ∀ s : Session, wp program
    (fun _ t => Continued env s t ∧ (s.log.length < t.log.length → env.throws t.events = false))
    (fun why t => Continued env s t ∧ (why ≠ .listener → s.log.length < t.log.length →
      env.throws t.events = false) ∧
      (why = .listener → s.log.length < t.log.length ∧ env.throws t.events = true)) s

section Continuing
variable {env : Env} {a b c : Session}

theorem continuedRefl {engine : Engine} (s : Session) (grown : Grown s.engine engine) :
    Continued env s { s with engine := engine } :=
  ⟨grown, List.prefix_refl _, fun _ past inside =>
    absurd inside (Nat.not_lt.mpr (Nat.le_of_lt past))⟩

theorem continuedTrans (ab : Continued env a b)
    (pass : a.log.length < b.log.length → env.throws b.events = false) (bc : Continued env b c) :
    Continued env a c := by
  refine ⟨grownTrans ab.grown bc.grown, ab.log.trans bc.log, fun k past inside => ?_⟩
  have events : c.events.take b.log.length = b.events := by
    obtain ⟨new, split⟩ := bc.log
    rw [Session.events, ← split, List.map_append, List.take_left' (by simp)]
    rfl
  rcases Nat.lt_trichotomy k b.log.length with less | same | more
  · have first := ab.passed k past less
    rwa [← events, List.take_take, Nat.min_eq_left (Nat.le_of_lt less)] at first
  · rw [same, events]
    exact pass (same ▸ past)
  · exact bc.passed k more inside

end Continuing

section Rules
variable {env : Env} {α β : Type} {program other : Op α}

theorem growsPure (a : α) : Grows env (pure a) :=
  ⟨fun s => ⟨continuedRefl s (grownRefl _), fun more => absurd more (Nat.lt_irrefl _)⟩⟩

theorem growsThrow {why : Abort} (other : why ≠ .listener) : Grows env (throw why : Op α) :=
  ⟨fun s => ⟨continuedRefl s (grownRefl _), fun _ more => absurd more (Nat.lt_irrefl _),
    fun same => absurd same other⟩⟩

theorem growsBind {f : α → Op β} (first : Grows env program) (second : ∀ a, Grows env (f a)) :
    Grows env (program >>= f) := by
  refine ⟨fun s => ?_⟩
  rw [wpBind]
  refine wpMono (first.ends s) (fun a t ⟨begun, pass⟩ => ?_) (fun _ _ stopped => stopped)
  have new : ∀ {u : Session}, Continued env t u →
      (t.log.length < u.log.length → env.throws u.events = false) →
      s.log.length < u.log.length → env.throws u.events = false := by
    intro u later last more
    by_cases quiet : t.log.length < u.log.length
    · exact last quiet
    · have same : t.log = u.log := later.log.eq_of_length_le (Nat.not_lt.mp quiet)
      have events : u.events = t.events := by rw [Session.events, ← same, Session.events]
      rw [events]
      exact pass (by rw [same]; exact more)
  refine wpMono ((second a).ends t) (fun _ u ⟨later, last⟩ => ?_)
    (fun why u ⟨later, last, broke⟩ => ?_)
  · exact ⟨continuedTrans begun pass later, new later last⟩
  · refine ⟨continuedTrans begun pass later, fun other => new later (last other),
      fun listener => ?_⟩
    obtain ⟨more, throws⟩ := broke listener
    exact ⟨Nat.lt_of_le_of_lt begun.log.length_le more, throws⟩

theorem growsRead {f : Engine → Op β} (rest : ∀ engine, Grows env (f engine)) :
    Grows env (current >>= f) :=
  growsBind ⟨fun s => ⟨continuedRefl s (grownRefl _), fun more => absurd more (Nat.lt_irrefl _)⟩⟩
    rest

theorem growsUpdate {f : Engine → Engine} (grown : ∀ engine, Grown engine (f engine)) :
    Grows env (update f) :=
  ⟨fun s => ⟨continuedRefl s (grown _), fun more => absurd more (Nat.lt_irrefl _)⟩⟩

theorem growsIte {p : Prop} [Decidable p] (yes : Grows env program) (no : Grows env other) :
    Grows env (if p then program else other) := by
  by_cases h : p
  · rwa [if_pos h]
  · rwa [if_neg h]

theorem growsEmit (env : Env) (event : Event) : Grows env (emit env event) := by
  refine ⟨fun s => ?_⟩
  have added : Continued env s { s with log := s.log ++ [⟨event, s.engine⟩] } := by
    refine ⟨grownRefl _, List.prefix_append _ _, fun k past inside => ?_⟩
    simp only [List.length_append, List.length_singleton] at inside
    omega
  have more : s.log.length < (s.log ++ [(⟨event, s.engine⟩ : Callback)]).length := by simp
  simp only [emit, wpBind, wpModify, wpGet, wpIte, wpThrow, wpPure]
  refine ⟨fun throws => ⟨added, fun other => absurd rfl other, fun _ => ⟨more, throws⟩⟩,
    fun returns => ⟨added, fun _ => ?_⟩⟩
  exact Bool.eq_false_iff.mpr returns

end Rules

section Pieces
variable (env : Env) (b : Nat) (instrumentId : InstrumentId) (aggressor slot newSlot : Slot)
  (side : Side) (idx : UInt32) (limitPrice price : Int) (isMarket : Bool)

theorem growsAllocate : Grows env (allocate env) := by
  refine ⟨fun s => ?_⟩
  simp only [allocate, current, update, wpBind, wpGet, wpPure]
  cases allocated : s.engine.pool.allocate env.chunk with
  | none => exact (growsThrow (by decide)).ends s
  | some result =>
    obtain ⟨slot, pool⟩ := result
    have size := (OrderPool.allocateSize allocated)
    exact ⟨continuedRefl s ⟨by simp only [size]; omega, rfl, fun _ => sameFrameRefl _, rfl, rfl⟩,
      fun more => absurd more (Nat.lt_irrefl _)⟩

theorem growsInsertOrder (id : OrderId) : Grows env (insertOrder env id slot) := by
  refine growsRead (fun engine => ?_)
  cases engine.orderIndex.insert env.slots id slot with
  | none => exact growsThrow (by decide)
  | some index =>
    exact growsUpdate (fun engine => ⟨Nat.le_refl _, rfl, fun _ => sameFrameRefl _, rfl, rfl⟩)

theorem growsRecord (f : OrderRecord → OrderRecord) :
    Grows env (update (fun engine => engine.putRecord slot f)) :=
  growsUpdate (fun _ => ⟨Nat.le_refl _, rfl, fun _ => sameFrameRefl _, rfl, rfl⟩)

theorem growsAdd : Grows env (update (fun engine =>
    engine.putBook b (addResting engine.pool (engine.books.read b) slot side price))) :=
  growsUpdate (fun engine => grownBook engine b (addRestingSize ..) (addRestingFrame ..))

theorem growsRemove : Grows env (update (fun engine =>
    engine.putBook b (removeResting engine.pool (engine.books.read b) slot))) :=
  growsUpdate (fun engine => grownBook engine b (removeRestingSize ..) (removeRestingFrame ..))

theorem growsReplace : Grows env (update (fun engine =>
    engine.putBook b (replaceInPlace engine.pool (engine.books.read b) slot newSlot))) :=
  growsUpdate (fun engine => grownBook engine b (replaceInPlaceSize ..) (replaceInPlaceFrame ..))

theorem growsTradeHead : Grows env (tradeHead env b instrumentId aggressor side idx) := by
  refine growsRead (fun engine =>
    growsBind ?_ (fun _ => growsBind (growsEmit ..) (fun _ => growsBind ?_ (fun _ =>
    growsRead (fun settled => growsIte (growsRemove ..) (growsPure _))))))
  · exact growsUpdate (fun engine => ⟨Nat.le_refl _, rfl, fun _ => sameFrameRefl _, rfl, rfl⟩)
  · exact growsUpdate (fun engine => grownBook engine b rfl (putLevelFrame ..))

theorem growsMatchLevel (fuel : Nat) :
    Grows env (matchLevel env b instrumentId aggressor side idx fuel) := by
  induction fuel with
  | zero => exact growsRead (fun engine => growsIte (growsThrow (by decide)) (growsPure _))
  | succ fuel ih =>
    exact growsRead (fun engine => growsIte (growsBind (growsTradeHead ..) (fun _ => ih))
      (growsPure _))

theorem growsMatchLevels (inner fuel : Nat) :
    Grows env (matchLevels env b instrumentId aggressor side limitPrice isMarket inner fuel) := by
  induction fuel with
  | zero => exact growsRead (fun engine => growsIte (growsThrow (by decide)) (growsPure _))
  | succ fuel ih =>
    exact growsRead (fun engine => growsIte (growsBind (growsMatchLevel ..) (fun _ => ih))
      (growsPure _))

theorem growsRunMatching :
    Grows env (runMatching env b instrumentId aggressor side limitPrice isMarket) :=
  growsRead (fun _ => growsMatchLevels ..)

theorem growsDispose (order : NewOrder) : Grows env (disposeRemainder env b slot order price) :=
  growsRead (fun _ => growsIte
    (growsIte (growsAdd ..) (growsBind (growsRecord ..) (fun _ => growsEmit ..))) (growsPure _))

theorem growsExecute (order : NewOrder) : Grows env (execute env b slot order price) := by
  have both : Grows env (matchAndDispose env b slot order price) :=
    growsBind (growsRunMatching ..) (fun _ => growsDispose ..)
  refine growsRead (fun engine => growsIte ?_ both)
  cases canFullyFill (engine.books.read b) order.side (order.type = .market) price
    order.quantity with
  | none => exact growsThrow (by decide)
  | some fits =>
    cases fits with
    | true => exact both
    | false => exact growsBind (growsRecord ..) (fun _ => growsEmit ..)

theorem growsEnterOrder (order : NewOrder) : Grows env (enterOrder env order) :=
  growsBind (growsAllocate env) (fun _ => growsBind (growsRecord ..) (fun _ =>
    growsBind (growsInsertOrder ..) (fun _ => growsPure _)))

theorem growsAccept (order : NewOrder) : Grows env (accept env slot order) :=
  growsBind (growsRecord ..) (fun _ => growsEmit ..)

theorem growsSubmit (order : NewOrder) : Grows env (submit env order) := by
  refine growsRead (fun engine => growsIte (growsEmit ..) ?_)
  cases engine.findBook order.instrumentId with
  | none => exact growsEmit ..
  | some b =>
    refine growsIte (growsEmit ..) (growsBind (growsEnterOrder env order) (fun slot => ?_))
    cases invalid (engine.books.read b) order with
    | some reason => exact growsEmit ..
    | none => exact growsBind (growsAccept ..) (fun _ => growsExecute ..)

theorem growsCancelSlot (id : OrderId) : Grows env (cancelSlot env id slot) :=
  growsRead (fun _ => growsBind (growsRemove ..) (fun _ => growsEmit ..))

theorem growsCancel (request : CancelOrder) : Grows env (cancel env request) := by
  refine growsRead (fun engine => growsIte (growsEmit ..) ?_)
  cases engine.findOpen request.orderId with
  | none => exact growsEmit ..
  | some slot => exact growsCancelSlot ..

theorem growsEnterReplacement (request : ReplaceOrder) (old : OrderRecord) :
    Grows env (enterReplacement env request old) := by
  refine growsBind (growsAllocate env)
    (fun newSlot => growsBind (growsRecord ..) (fun _ => growsIte ?_ ?_))
  · exact growsBind (growsUpdate
      (fun engine => ⟨Nat.le_refl _, rfl, fun _ => sameFrameRefl _, rfl, rfl⟩))
      (fun _ => growsPure _)
  · exact growsBind (growsInsertOrder ..) (fun _ => growsPure _)

theorem growsRest (request : ReplaceOrder) (old : OrderRecord) : Grows env (do
    let engine ← current
    if 0 < (engine.pool.get newSlot).openQty then
      update (fun engine =>
        engine.putBook b (addResting engine.pool (engine.books.read b) newSlot old.side
          request.newPrice))) :=
  growsRead (fun _ => growsIte (growsAdd ..) (growsPure _))

theorem growsRequeue (request : ReplaceOrder) (old : OrderRecord) :
    Grows env (requeue env request b slot newSlot old) := by
  refine growsBind (growsRemove ..)
    (fun _ => growsBind (growsEmit ..) (fun _ => growsIte ?_ (growsRest ..)))
  exact growsBind (growsRunMatching ..) (fun _ => growsRest ..)

theorem growsReplaceSlot (request : ReplaceOrder) (old : OrderRecord) :
    Grows env (replaceSlot env request b slot old) := by
  refine growsBind (growsEnterReplacement ..) (fun newSlot => growsIte (growsRequeue ..) ?_)
  exact growsBind (growsReplace ..) (fun _ => growsEmit ..)

theorem growsReplaceOrder (request : ReplaceOrder) : Grows env (replace env request) := by
  refine growsRead (fun engine => growsIte (growsEmit ..) ?_)
  cases engine.findOpen request.orderId with
  | none => exact growsEmit ..
  | some slot =>
    exact growsIte (growsCancelSlot ..)
      (growsIte (growsEmit ..) (growsIte (growsEmit ..) (growsIte (growsEmit ..)
      (growsReplaceSlot ..))))

theorem growsPerform (request : Request) : Grows env (perform env request) := by
  cases request with
  | submit order => exact growsSubmit env order
  | cancel request => exact growsCancel env request
  | replace request => exact growsReplaceOrder env request

end Pieces

theorem callEnds {env : Env} {request : Request} {engine : Engine} {P : Session → Prop}
    (ends : wp (perform env request) (fun _ t => P t) (fun _ t => P t) { engine := engine }) :
    P (call env request engine) := by
  unfold wp at ends
  unfold call
  cases ran : (perform env request).run.run { engine := engine } with
  | mk outcome session =>
    rw [ran] at ends
    cases outcome <;> exact ends

theorem callGrown (env : Env) (request : Request) (engine : Engine) :
    Grown engine (call env request engine).engine := by
  have grown := (growsPerform env request).ends { engine := engine }
  exact callEnds (wpMono grown (fun _ _ h => h.1.grown) (fun _ _ h => h.1.grown))

theorem idleEnds {engine : Engine} (unconfigured : engine.configured = false) (env : Env)
    (request : Request) :
    wp (perform env request) (fun _ t => t.engine = engine) (fun why t => t.engine = engine ∧
      why ≠ .memory)
      { engine := engine } := by
  cases request <;>
    simp only [perform, submit, cancel, replace, current, wpBind, wpGet, wpPure, unconfigured,
      Bool.not_false, emit, wpModify, wpIte, wpThrow, implies_true, and_self, not_true_eq_false,
      false_implies, ne_eq, reduceCtorEq, not_false_eq_true]

theorem idleCall {engine : Engine} (unconfigured : engine.configured = false) (env : Env)
    (request : Request) : (call env request engine).engine = engine :=
  callEnds (wpMono (idleEnds unconfigured env request) (fun _ _ same => same) (fun _ _ h => h.1))

end Engine
end Xmatch
