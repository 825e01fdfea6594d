import Xmatch.Rejections

/-! A call that finds no memory: it has reported nothing, and but for a slot that nobody
knows the engine is as before. -/
namespace Xmatch

namespace Venue

/- What the listener lets happen of a result: the events up to the first that it throws out of. -/
def react (throws : List Event → Bool) (result : List Moment × Venue) : List Event × Venue :=
  match (List.range result.1.length).find?
    (fun n => throws ((result.1.map (·.event)).take (n + 1))) with
  | none => (result.1.map (·.event), result.2)
  | some n => ((result.1.map (·.event)).take (n + 1), ((result.1[n]?).map (·.venue)).getD result.2)

end Venue

namespace Engine
open OrderBook Effect

section Reactions
variable {engine : Engine} {venue : Venue} {env : Env}

theorem callReacts (sim : Sim engine venue) (room : engine.pool.size < kInvalidSlot.toNat)
    (memory : env.chunk = true ∧ env.slots = true) (request : Request) :
    (call env request engine).events =
      (Venue.react env.throws (Venue.perform wrappedFill request venue)).1 ∧
      Sim (call env request engine).engine
        (Venue.react env.throws (Venue.perform wrappedFill request venue)).2 := by
  have refines := @performRefines env { engine := engine } venue sim room request
  have grows := (growsPerform env request).ends { engine := engine }
  unfold Refines at refines
  unfold wp at refines grows
  unfold call
  cases ran : (perform env request).run.run { engine := engine } with
  | mk outcome session =>
    rw [ran] at refines grows
    have early : ∀ n, n + 1 < session.log.length →
        env.throws (session.events.take (n + 1)) = false := by
      intro n inside
      cases outcome with
      | ok _ => exact grows.1.passed (n + 1) (Nat.succ_pos n) inside
      | error _ => exact grows.1.passed (n + 1) (Nat.succ_pos n) inside
    cases outcome with
    | ok _ =>
      obtain ⟨callbacks, log, follows, sim'⟩ := refines
      rw [List.nil_append] at log
      subst log
      have events : session.events = (Venue.perform wrappedFill request venue).1.map (·.event) :=
        followsEvents follows
      have none : (List.range (Venue.perform wrappedFill request venue).1.length).find?
          (fun n => env.throws (((Venue.perform wrappedFill request venue).1.map (·.event)).take
            (n + 1))) = none := by
        refine List.find?_range_eq_none.mpr (fun n inside => ?_)
        rw [← events, Bool.not_eq_true']
        rcases Nat.lt_or_ge (n + 1) session.log.length with before | last
        · exact early n before
        · rw [List.take_of_length_le (by rw [Session.events, List.length_map]; exact last)]
          refine grows.2 (Nat.lt_of_lt_of_le ?_ (Nat.le_of_eq follows.length_eq.symm))
          exact Nat.zero_lt_of_lt inside
      simp only [Venue.react, none]
      exact ⟨events, sim'⟩
    | error why =>
      rcases refines with ⟨_, throws, n, moment, callbacks, here, log, follows,
        sim'⟩ | ⟨_, short, _⟩
      · rw [List.nil_append] at log
        subst log
        have inside := (List.getElem?_eq_some_iff.mp here).1
        have events : session.events =
            ((Venue.perform wrappedFill request venue).1.map (·.event)).take (n + 1) := by
          rw [← List.map_take]
          exact followsEvents follows
        have length : session.log.length = n + 1 := by
          rw [follows.length_eq, List.length_take]
          omega
        have first : (List.range (Venue.perform wrappedFill request venue).1.length).find?
            (fun n => env.throws (((Venue.perform wrappedFill request venue).1.map (·.event)).take
              (n + 1))) = some n := by
          refine List.find?_range_eq_some.mpr
            ⟨by rw [← events]; exact throws, List.mem_range.mpr inside, fun m below => ?_⟩
          rw [Bool.not_eq_true']
          have passed := early m (by omega)
          rwa [events, List.take_take, Nat.min_eq_left (by omega)] at passed
        simp only [Venue.react, first, here, Option.map_some, Option.getD_some]
        exact ⟨events, sim'⟩
      · rcases short with short | short <;> simp [memory] at short

end Reactions

structure Unspent (before after : Engine) : Prop where
  rest : after = { before with pool := after.pool }
  records : ∀ slot : Slot, slot.toNat < before.pool.size →
    after.pool.get slot = before.pool.get slot

def Enters {α : Type} (program : Op α) (s : Session) : Prop :=
  wp program (fun _ t => t.log = s.log) (fun _ t => t.log = s.log ∧ Unspent s.engine t.engine) s

def Starves {α : Type} (program : Op α) (s : Session) : Prop :=
  wp program (fun _ _ => True) (fun _ t => t.log = [] → Unspent s.engine t.engine) s

section Starving
variable {env : Env} {α β : Type} {program : Op α} {event : Event} {s : Session}

theorem unspentRefl (engine : Engine) : Unspent engine engine := ⟨rfl, fun _ _ => rfl⟩

theorem starvesOpens (opens : Opens event program s) : Starves program s := by
  refine wpMono opens (fun _ _ _ => trivial) (fun _ t head silent => ?_)
  rw [Session.events, silent] at head
  contradiction

theorem starvesEmit (empty : s.log = []) : Starves (emit env event) s :=
  starvesOpens (emitOpens env event empty)

theorem starvesRead {f : Engine → Op α} (rest : Starves (f s.engine) s) :
    Starves (current >>= f) s := by
  simpa only [Starves, current, wpBind, wpGet, wpPure] using rest

theorem starvesEnters {f : α → Op β} (enters : Enters program s) (empty : s.log = [])
    (rest : ∀ a (t : Session), t.log = [] → ∃ event, Opens event (f a) t) :
    Starves (program >>= f) s := by
  rw [Starves, wpBind]
  refine wpMono enters (fun a t log => ?_) (fun _ t h _ => h.2)
  obtain ⟨event, opens⟩ := rest a t (log.trans empty)
  refine wpMono opens (fun _ _ _ => trivial) (fun _ u head silent => ?_)
  rw [Session.events, silent] at head
  contradiction

theorem entersNew (stored : s.engine.pool.Stored) (room : s.engine.pool.size < kInvalidSlot.toNat)
    (f : OrderRecord → OrderRecord)
    {next : Slot → Op β}
    (rest : ∀ (slot : Slot) (t : Session), t.log = s.log → Unspent s.engine t.engine →
      wp (next slot) (fun _ u => u.log = s.log)
      (fun _ u => u.log = s.log ∧ Unspent s.engine u.engine) t) :
    Enters (do
      let slot ← allocate env
      update (fun engine => engine.putRecord slot f)
      next slot) s := by
  rw [Enters, wpBind]
  simp only [allocate, current, update, wpBind, wpGet, wpPure]
  cases allocated : s.engine.pool.allocate env.chunk with
  | none => exact ⟨rfl, unspentRefl _⟩
  | some result =>
    obtain ⟨slot, pool⟩ := result
    have spare := spareRecord (spareAllocate stored room allocated) f
    exact rest slot _ rfl ⟨spare.rest, spare.kept⟩

theorem entersIndex {s t : Session} (log : t.log = s.log) (unspent : Unspent s.engine t.engine)
    (id : OrderId) (slot : Slot) :
    wp (insertOrder env id slot >>= fun _ => pure slot) (fun _ u => u.log = s.log)
      (fun _ u => u.log = s.log ∧ Unspent s.engine u.engine) t := by
  simp only [insertOrder, current, update, wpBind, wpGet, wpPure]
  cases t.engine.orderIndex.insert env.slots id slot with
  | none => exact ⟨log, unspent⟩
  | some index => exact log

theorem entersOrder (stored : s.engine.pool.Stored) (room : s.engine.pool.size < kInvalidSlot.toNat)
    (order : NewOrder) : Enters (enterOrder env order) s :=
  entersNew stored room _ (fun slot _ log unspent => entersIndex log unspent order.orderId slot)

theorem entersReplacement (stored : s.engine.pool.Stored)
    (room : s.engine.pool.size < kInvalidSlot.toNat) (request : ReplaceOrder) (old : OrderRecord) :
    Enters (enterReplacement env request old) s := by
  refine entersNew stored room _ (fun slot t log unspent => ?_)
  split
  · exact log
  · exact entersIndex log unspent request.newOrderId slot

theorem starvesSubmit (stored : s.engine.pool.Stored)
    (room : s.engine.pool.size < kInvalidSlot.toNat) (order : NewOrder) (empty : s.log = []) :
    Starves (submit env order) s := by
  refine starvesRead ?_
  split
  · exact starvesEmit empty
  · split
    · exact starvesEmit empty
    · split
      · exact starvesEmit empty
      · refine starvesEnters (entersOrder stored room order) empty (fun slot t silent => ?_)
        split
        · exact ⟨_, emitOpens env _ silent⟩
        · exact ⟨_, opensThen (opensUpdate (emitOpens env _ silent))
            (fun _ => growsExecute env _ slot _ order)⟩

theorem starvesReplaceSlot (stored : s.engine.pool.Stored)
    (room : s.engine.pool.size < kInvalidSlot.toNat) (request : ReplaceOrder) (b : Nat)
    (oldSlot : Slot) (old : OrderRecord) (empty : s.log = []) :
    Starves (replaceSlot env request b oldSlot old) s := by
  refine starvesEnters (entersReplacement stored room request old) empty
    (fun newSlot t silent => ?_)
  exact ⟨.replaced request.orderId request.newOrderId request.newPrice
    (replacementOpen request old).toNat,
    replacementOpens silent⟩

theorem starvesReplace (stored : s.engine.pool.Stored)
    (room : s.engine.pool.size < kInvalidSlot.toNat) (request : ReplaceOrder) (empty : s.log = []) :
    Starves (replace env request) s := by
  refine starvesRead ?_
  split
  · exact starvesEmit empty
  · split
    · exact starvesEmit empty
    · simp only
      split
      · exact starvesOpens (cancelSlotOpens request.orderId empty)
      split
      · exact starvesEmit empty
      split
      · exact starvesEmit empty
      split
      · exact starvesEmit empty
      · exact starvesReplaceSlot stored room request _ _ _ empty

theorem starvesPerform (stored : s.engine.pool.Stored)
    (room : s.engine.pool.size < kInvalidSlot.toNat) (request : Request) (empty : s.log = []) :
    Starves (perform env request) s := by
  cases request with
  | submit order => exact starvesSubmit stored room order empty
  | cancel request =>
    refine starvesRead ?_
    split
    · exact starvesEmit empty
    · split
      · exact starvesEmit empty
      · exact starvesOpens (cancelSlotOpens request.orderId empty)
  | replace request => exact starvesReplace stored room request empty

end Starving

def Action.Supplied : Action → Prop
  | .configure _ _ => True
  | .call env _ => env.chunk = true ∧ env.slots = true

section Futures
variable {one two : Engine} {venue : Venue}

theorem suppliedAct (simOne : Sim one venue) (simTwo : Sim two venue)
    (configured : venue.configured = true) {action : Action} (supplied : action.Supplied)
    (roomOne : one.pool.size < kInvalidSlot.toNat) (roomTwo : two.pool.size < kInvalidSlot.toNat) :
    one.answer action = two.answer action ∧ ∃ venue', Sim (act one action) venue' ∧
      Sim (act two action) venue' := by
  cases action with
  | configure trouble instruments =>
    have again : ∀ {engine : Engine}, Sim engine venue →
        engine.configure trouble instruments = some (.alreadyConfigured, engine) :=
      fun sim => configureAgain ((simConfigured sim).symm.trans configured) trouble instruments
    simp only [answer, act, again simOne, again simTwo, Option.map_some]
    exact ⟨trivial, venue, simOne, simTwo⟩
  | call env request =>
    obtain ⟨events, simOne'⟩ := callReacts simOne roomOne supplied request
    obtain ⟨events', simTwo'⟩ := callReacts simTwo roomTwo supplied request
    exact ⟨by rw [answer, answer, events, events'], _, simOne', simTwo'⟩

theorem suppliedAnswers (later : List Action) :
    ∀ (one two : Engine) (venue : Venue), Sim one venue → Sim two venue →
    venue.configured = true → (∀ action ∈ later, action.Supplied) → Roomy (later.foldl act one) →
    Roomy (later.foldl act two) → answers later one = answers later two := by
  induction later with
  | nil => intros; rfl
  | cons action rest ih =>
    intro one two venue simOne simTwo configured supplied roomOne roomTwo
    have configuredOne := (simConfigured simOne).symm.trans configured
    have configuredTwo := (simConfigured simTwo).symm.trans configured
    obtain ⟨answered, venue', simOne', simTwo'⟩ :=
      suppliedAct simOne simTwo configured (supplied action List.mem_cons_self)
      (foldRoomy configuredOne roomOne) (foldRoomy configuredTwo roomTwo)
    have still : venue'.configured = true :=
      (simConfigured simOne').trans
        ((actsGrown one configuredOne [action]).configured.trans configuredOne)
    have tops : (act one action).topOfBook = (act two action).topOfBook := by
      funext id
      rw [simShown simOne', simShown simTwo']
    rw [answers, answers, answered, tops]
    exact congrArg _ (ih _ _ _ simOne' simTwo' still
      (fun a member => supplied a (List.mem_cons_of_mem _ member)) roomOne roomTwo)

end Futures

/- What a call that ran out of memory leaves: nothing reported, no id or trade id used, no book
or record changed, and the same answers to everything that is asked later. -/
structure Atomic (before : Engine) (session : Session) : Prop where
  silent : session.log = []
  unspent : Unspent before session.engine
  index : session.engine.orderIndex = before.orderIndex ∧ session.engine.orderIndex.Valid
  later : ∀ later : List Action, (∀ action ∈ later, action.Supplied) →
    Roomy (later.foldl act session.engine) →
    Roomy (later.foldl act before) → answers later session.engine = answers later before

theorem starvedCallIsAtomic (actions : List Action) (roomy : Roomy (after actions)) (env : Env)
    (request : Request)
    (session : Session) (starved : (perform env request).run.run { engine := after actions } =
      (.error .memory, session)) :
    Atomic (after actions) session := by
  obtain ⟨venue, sim, -⟩ := reached keptTrivial actions roomy
  have refines := @performRefines env { engine := after actions } venue sim roomy.slots request
  obtain ⟨queues, rep, live, view⟩ := sim
  have starves : Starves (perform env request) { engine := after actions } :=
    starvesPerform rep.stored roomy.slots request rfl
  have grows := (growsPerform env request).ends { engine := after actions }
  unfold Refines wp at refines
  unfold Starves wp at starves
  unfold wp at grows
  rw [starved] at refines starves grows
  rcases refines with ⟨other, _⟩ | ⟨_, _, silent, venue', same, sim'⟩
  · contradiction
  obtain rfl := Option.some.inj same
  have unspent : Unspent (after actions) session.engine := starves silent
  have index : session.engine.orderIndex = (after actions).orderIndex := by rw [unspent.rest]
  refine ⟨silent, unspent, ⟨index, by rw [index]; exact rep.index⟩,
    fun later supplied roomyOne roomyTwo => ?_⟩
  have configured : (after actions).configured = true := by
    by_contra unconfigured
    have idle := idleEnds (Bool.eq_false_iff.mpr unconfigured) env request
    unfold wp at idle
    rw [starved] at idle
    exact idle.2 rfl
  have configured' : venue.configured = true := view.configured.trans configured
  exact suppliedAnswers later _ _ venue sim' ⟨queues, rep, live, view⟩ configured' supplied
    roomyOne roomyTwo

/- An order without a quantity takes a slot and an id, and nothing else. -/
def emptyOrder (n : Nat) : NewOrder := ⟨UInt64.ofNat n, 7, .sell, .limit, .day, 100000, 0⟩

structure Taken (n : Nat) (engine : Engine) : Prop where
  configured : engine.configured = true
  found : engine.findBook 7 = some 0
  books : engine.books = (after (calmRun [⟨7, 100000, 1000⟩] [])).books
  size : engine.pool.size = n
  chunks : engine.pool.chunks.size = 16
  index : engine.orderIndex.Valid
  unused : ∀ id : OrderId, n ≤ id.toNat → engine.orderIndex.find id = none

section Filling
variable {engine : Engine} {n : Nat}

theorem takenStart : Taken 0 (after (calmRun [⟨7, 100000, 1000⟩] [])) := by
  have accepted := @configuredStart [⟨7, 100000, 1000⟩] (by decide +kernel)
  obtain ⟨_, _, installed⟩ := configureInstalls accepted
  obtain ⟨valid, same⟩ := FlatHashMap.reserveValid FlatHashMap.emptyValid.1 kDefaultOrderCapacity
  refine ⟨installed.configured, by decide +kernel, rfl, by decide +kernel, by decide +kernel, ?_, fun id _ => ?_⟩
  · rw [installed.orderIndex]
    exact valid
  · rw [installed.orderIndex, same, FlatHashMap.emptyValid.2]

theorem emptyId (small : n < 2 ^ 64) : (emptyOrder n).orderId.toNat = n := by
  rw [emptyOrder, UInt64.toNat_ofNat']
  exact Nat.mod_eq_of_lt small

theorem takenUnused (taken : Taken n engine) (small : n < 2 ^ 64) :
    engine.orderIndex.find (emptyOrder n).orderId = none :=
  taken.unused _ (Nat.le_of_eq (emptyId small).symm)

theorem takenContains (taken : Taken n engine) (small : n < 2 ^ 64) :
    engine.orderIndex.contains (emptyOrder n).orderId = false := by
  rw [FlatHashMap.contains, takenUnused taken small]
  rfl

theorem takenNext (taken : Taken n engine) (room : n < 16 * OrderPool.kChunkSize) :
    Taken (n + 1) (call .calm (.submit (emptyOrder n)) engine).engine := by
  have small : n < 2 ^ 64 := Nat.lt_trans room (by decide)
  have absent := takenUnused taken small
  have unused := takenContains taken small
  have chunk : ¬engine.pool.chunks.size ≤ engine.pool.size / OrderPool.kChunkSize := by
    rw [taken.chunks, taken.size, Nat.not_le]
    exact Nat.div_lt_of_lt_mul (by rwa [Nat.mul_comm] at room)
  have flaw : ∀ book, invalid book (emptyOrder n) = some .invalidQuantity := fun book => by
    simp [invalid, emptyOrder]
  have named : engine.findBook (emptyOrder n).instrumentId = some 0 := taken.found
  refine @callEnds .calm (.submit (emptyOrder n)) engine (fun t => Taken (n + 1) t.engine) ?_
  simp only [perform, submit, enterOrder, allocate, insertOrder, current, update,
    OrderPool.allocate, wpBind, wpGet, wpPure, wpModify, taken.configured, named, unused, chunk,
    Bool.not_true, Bool.false_eq_true, if_false, Option.map_some, putRecord]
  cases inserted : engine.orderIndex.insert Env.calm.slots (emptyOrder n).orderId
    (UInt32.ofNat engine.pool.size) with
  | none => exact absurd (FlatHashMap.insertFails inserted) (by decide)
  | some index =>
    obtain ⟨valid, reads⟩ := FlatHashMap.insertValid taken.index absent inserted
    simp only [flaw, emit, wpBind, wpModify, wpGet, wpIte, wpThrow, wpPure]
    have later : ∀ id : OrderId, n + 1 ≤ id.toNat → index.find id = none := by
      intro id above
      have apart : id ≠ (emptyOrder n).orderId := by
        rintro rfl
        rw [emptyId small] at above
        omega
      rw [reads, if_neg apart]
      exact taken.unused id (by omega)
    have size : engine.pool.size + 1 = n + 1 := congrArg (· + 1) taken.size
    exact ⟨fun _ => ⟨rfl, taken.found, taken.books, size, taken.chunks, valid, later⟩,
      fun _ => ⟨rfl, taken.found, taken.books, size, taken.chunks, valid, later⟩⟩

theorem takenRoomy (taken : Taken n engine) (small : n < kInvalidSlot.toNat) : Roomy engine := by
  refine roomyOf (by rw [taken.size]; exact small) ?_
  rw [taken.books]
  decide +kernel

theorem takenUpTo (n : Nat) (room : n ≤ 16 * OrderPool.kChunkSize) : Taken n
    (after (calmRun [⟨7, 100000, 1000⟩]
      ((List.range n).map (fun k => .submit (emptyOrder k))))) := by
  induction n with
  | zero => exact takenStart
  | succ n ih =>
    have taken := takenNext (ih (by omega)) (by omega)
    rw [List.range_succ, List.map_append, calmRun, List.map_append, ← List.cons_append]
    rw [List.map_singleton, List.map_singleton, afterNext]
    exact taken

theorem takenStarves (taken : Taken n engine) (full : n = 16 * OrderPool.kChunkSize)
    (throws : List Event → Bool) :
    (perform ⟨throws, false, true⟩ (.submit (emptyOrder n))).run.run { engine := engine } =
      (.error .memory, call ⟨throws, false, true⟩ (.submit (emptyOrder n)) engine) := by
  have unused := takenContains taken (by rw [full]; decide)
  have named : engine.findBook (emptyOrder n).instrumentId = some 0 := taken.found
  have chunk : engine.pool.chunks.size ≤ engine.pool.size / OrderPool.kChunkSize := by
    rw [taken.chunks, taken.size, full, Nat.mul_div_cancel _ (by decide)]
  have ends : wp (perform ⟨throws, false, true⟩ (.submit (emptyOrder n))) (fun _ _ => False)
      (fun why _ => why = .memory)
      { engine := engine } := by
    simp only [perform, submit, enterOrder, allocate, current, OrderPool.allocate, wpBind, wpGet,
      wpPure, taken.configured, named, unused, chunk, Bool.not_true, Bool.false_eq_true, if_false,
      if_true, Option.map_none, wpThrow]
  unfold wp at ends
  unfold call
  cases ran : (perform ⟨throws, false, true⟩ (.submit (emptyOrder n))).run.run
    { engine := engine } with
  | mk outcome session =>
    rw [ran] at ends
    cases outcome with
    | ok _ => exact ends.elim
    | error why => rw [show why = .memory from ends]

end Filling

theorem fullPoolIsAtomic : Atomic
    (after (calmRun [⟨7, 100000, 1000⟩]
      ((List.range 16777216).map (fun n => .submit (emptyOrder n)))))
    (call ⟨fun _ => false, false, true⟩ (.submit (emptyOrder 16777216))
      (after (calmRun [⟨7, 100000, 1000⟩]
        ((List.range 16777216).map (fun n => .submit (emptyOrder n)))))) :=
  have taken := takenUpTo 16777216 (by decide)
  starvedCallIsAtomic _ (takenRoomy taken (by decide)) _ _ _ (takenStarves taken (by decide) _)

end Engine
end Xmatch
