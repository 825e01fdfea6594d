import Xmatch.Admission
import Xmatch.History
import Xmatch.WellFormed

/-! The quantity that records hold once their order is closed: none, as long as no open order
is canceled on request or replaced. -/
namespace Xmatch
namespace Engine
open OrderBook Effect

def sideSlots (engine : Engine) (b : Nat) (side : Side) : List Slot :=
  (List.range (engine.books.read b).levelCount).flatMap (levelSlots engine b side)

def bookedSlots (engine : Engine) : List Slot :=
  (List.range engine.books.size).flatMap fun b => [Side.buy, Side.sell].flatMap (sideSlots engine b)

def bookedQuantity (engine : Engine) : Nat := engine.pool.openIn (bookedSlots engine)

def recordedQuantity (engine : Engine) : Nat := engine.pool.openIn (slotsUsed engine)

/- Open quantity is held by the open records alone, and is what rests on the books. -/
structure RecordsSettled (engine : Engine) : Prop where
  holding : ∀ slot : Slot, slot.toNat < engine.pool.size →
    (0 < (engine.pool.get slot).openQty ↔ (engine.pool.get slot).isOpen = true)
  total : recordedQuantity engine = bookedQuantity engine

/- The request takes an open order out of its book: it cancels it, replaces it down to nothing, or
gets a slot for a valid replacement. -/
def Withdrawing (engine : Engine) (env : Env) : Request → Prop
  | .submit _ => False
  | .cancel request => engine.findOpen request.orderId ≠ none
  | .replace request => ∃ slot, engine.findOpen request.orderId = some slot ∧
    (replacementOpen request (engine.pool.get slot) = 0 ∨
      (¬(request.newOrderId ≠ request.orderId ∧
        engine.orderIndex.contains request.newOrderId = true) ∧
        TickTable.isTickAligned kTickSchedule request.newPrice = true ∧
        ¬(engine.books.read (engine.bookOf slot)).priceToIndex request.newPrice < 0 ∧
        engine.pool.allocate env.chunk ≠ none))

/- No record but that of the order in hand holds open quantity without being open. -/
def Drained (hand : Option Slot) (engine : Engine) : Prop :=
  ∀ slot : Slot, slot.toNat < engine.pool.size → some slot ≠ hand →
    0 < (engine.pool.get slot).openQty →
    (engine.pool.get slot).isOpen = true

section Updates
variable {engine : Engine} {hand : Option Slot} {slot aggressor resting : Slot} {b : Nat}
  {side : Side} {idx : UInt32} {fill : Quantity}

theorem drainedSame {engine' : Engine} (drained : Drained hand engine)
    (size : engine'.pool.size = engine.pool.size)
    (openQty : ∀ s, (engine'.pool.get s).openQty = (engine.pool.get s).openQty)
    (isOpen : ∀ s, (engine'.pool.get s).isOpen = (engine.pool.get s).isOpen) :
    Drained hand engine' := by
  intro s inside other holds
  rw [size] at inside
  rw [openQty] at holds
  rw [isOpen]
  exact drained s inside other holds

theorem drainedNamed (drained : Drained hand engine) (order : NewOrder) :
    Drained hand (engine.putRecord slot (fun rec =>
    { rec with id := order.orderId, instrumentId := order.instrumentId, side := order.side })) := by
  refine drainedSame drained rfl (fun s => ?_) (fun s => ?_) <;>
    simp only [putRecord, OrderPool.getModify] <;> split
  all_goals first | rfl | (rename_i here; rw [here])

theorem drainedEmptied (drained : Drained (some slot) engine) :
    Drained none (engine.putRecord slot (fun rec => { rec with openQty := 0 })) := by
  intro s inside _ holds
  simp only [putRecord, OrderPool.getModify] at holds ⊢
  split at holds
  · simp at holds
  · rename_i apart
    rw [if_neg apart]
    exact drained s inside (fun same => apart (Option.some.inj same)) holds

theorem drainedHand {f : OrderRecord → OrderRecord} (drained : Drained none engine) :
    Drained (some slot) (engine.putRecord slot f) := by
  intro s inside other holds
  have apart : s ≠ slot := fun same => other (congrArg some same)
  simp only [putRecord, OrderPool.getModify, apart, if_false] at holds ⊢
  exact drained s inside (Option.some_ne_none s) holds

theorem drainedAdd {price : Int} (drained : Drained (some slot) engine) :
    Drained none (engine.putBook b
      (addResting engine.pool (engine.books.read b) slot side price)) := by
  intro s inside _ holds
  have core := addRestingCore engine.pool (engine.books.read b) slot side price s
  rw [putBook, addRestingSize] at inside
  simp only [putBook] at holds ⊢
  rw [coreField OrderRecord.isOpen (fun _ => rfl) core]
  rw [coreField OrderRecord.openQty (fun _ => rfl) core] at holds
  by_cases here : s = slot
  · rw [entered, if_pos here]
  · rw [entered, if_neg here] at holds ⊢
    exact drained s inside (fun same => here (Option.some.inj same)) holds

theorem drainedRemove (drained : Drained hand engine) (empty : (engine.pool.get slot).openQty = 0) :
    Drained hand (engine.putBook b (removeResting engine.pool (engine.books.read b) slot)) := by
  intro s inside other holds
  have core := removeRestingCore engine.pool (engine.books.read b) slot s
  rw [putBook, removeRestingSize] at inside
  simp only [putBook] at holds ⊢
  rw [coreField OrderRecord.isOpen (fun _ => rfl) core]
  rw [coreField OrderRecord.openQty (fun _ => rfl) core] at holds
  by_cases here : s = slot
  · rw [left, if_pos here, here, empty] at holds
    contradiction
  · rw [left, if_neg here] at holds ⊢
    exact drained s inside other holds

theorem drainedSettle (drained : Drained (some aggressor) engine)
    (enough : fill ≤ (engine.pool.get resting).openQty) :
    Drained (some aggressor) (engine.settleTrade b side idx aggressor resting fill) := by
  intro s inside other holds
  have apart : s ≠ aggressor := fun same => other (congrArg some same)
  simp only [settleTrade, putBook, OrderPool.fill, OrderPool.getModify, apart, if_false] at holds ⊢
  split at holds
  · rename_i here
    rw [if_pos here]
    rw [← here, if_neg apart] at holds ⊢
    rw [← here] at enough
    refine drained s inside other ?_
    rw [UInt32.lt_iff_toNat_lt, UInt32.toNat_sub_of_le _ _ enough] at holds
    rw [UInt32.lt_iff_toNat_lt]
    simp only [UInt32.toNat_zero] at holds ⊢
    omega
  · rename_i here
    rw [if_neg here]
    exact drained s inside other holds

theorem drainedAllocate {memory : Bool} {pool : OrderPool} (drained : Drained none engine)
    (stored : engine.pool.Stored) (small : engine.pool.size < 2 ^ 32)
    (ok : engine.pool.allocate memory = some (slot, pool)) :
    Drained none { engine with pool := pool } := by
  have made := OrderPool.allocateAllocated stored ok
  have number : slot.toNat = engine.pool.size := by
    rw [made.named]
    exact WordBits.toNatOfNat small
  intro s inside other holds
  simp only [made.size] at inside holds ⊢
  by_cases here : s = slot
  · rw [here, made.fresh small] at holds
    contradiction
  · have apart : s.toNat ≠ slot.toNat := fun same => here (UInt32.toNat_inj.mp same)
    have below : s.toNat < engine.pool.size := by omega
    rw [made.kept s below] at holds ⊢
    exact drained s below other holds

end Updates

def Tidy {α : Type} (hand : Option Slot) (program : Op α) : Prop :=
  ∀ s : Session, Drained hand s.engine →
    wp program (fun _ t => Drained hand t.engine) (fun why _ => why ≠ .memory) s

section Tidiness
variable {hand : Option Slot} {env : Env} {b : Nat} {instrumentId : InstrumentId}
  {slot aggressor : Slot} {side : Side} {idx : UInt32} {limitPrice price : Int} {isMarket : Bool}
  {order : NewOrder} {α β : Type} {program other : Op α} {s : Session}

theorem tidyPure (a : α) : Tidy hand (pure a : Op α) := fun _ drained => drained

theorem tidyDiverged : Tidy hand (throw .diverged : Op α) := fun _ _ => by simp

theorem tidyBind {f : α → Op β} (first : Tidy hand program) (rest : ∀ a, Tidy hand (f a)) :
    Tidy hand (program >>= f) := by
  intro s drained
  rw [wpBind]
  exact wpMono (first s drained) (fun a t drained' => rest a t drained') (fun _ _ other => other)

theorem tidyIte {p : Prop} [Decidable p] (yes : Tidy hand program) (no : Tidy hand other) :
    Tidy hand (if p then program else other) := by
  by_cases h : p
  · rwa [if_pos h]
  · rwa [if_neg h]

theorem tidyRead {f : Engine → Op α} (rest : ∀ engine, Tidy hand (f engine)) :
    Tidy hand (current >>= f) :=
  tidyBind (fun _ drained => drained) rest

theorem tidyEmit (event : Event) : Tidy hand (emit env event) := by
  intro s drained
  simp only [emit, wpBind, wpModify, wpGet, wpIte, wpThrow, wpPure]
  exact ⟨fun _ => by simp, fun _ => drained⟩

theorem tidyTradeHead :
    Tidy (some aggressor) (tradeHead env b instrumentId aggressor side idx) := by
  intro s drained
  simp only [tradeHead, current, update, emit, wpBind, wpGet, wpPure, wpModify, wpIte, wpThrow]
  refine ⟨fun _ => by simp, fun _ => ?_⟩
  have settled : Drained (some aggressor)
      (settleTrade { s.engine with nextTradeId := s.engine.nextTradeId + 1 } b side idx
      aggressor ((s.engine.books.read b).levelAt side.opposite idx).head
      (if (s.engine.pool.get ((s.engine.books.read b).levelAt side.opposite idx).head).openQty <
          (s.engine.pool.get aggressor).openQty then
        (s.engine.pool.get ((s.engine.books.read b).levelAt side.opposite idx).head).openQty
      else (s.engine.pool.get aggressor).openQty)) := by
    refine drainedSettle (drainedSame drained rfl (fun _ => rfl) (fun _ => rfl)) ?_
    change (if _ then _ else _) ≤
      (s.engine.pool.get ((s.engine.books.read b).levelAt side.opposite idx).head).openQty
    split
    · exact UInt32.le_refl _
    · exact UInt32.not_lt.mp ‹_›
  exact ⟨fun empty => drainedRemove settled empty, fun _ => settled⟩

theorem tidyMatchLevel (fuel : Nat) :
    Tidy (some aggressor) (matchLevel env b instrumentId aggressor side idx fuel) := by
  induction fuel with
  | zero => exact tidyRead (fun _ => tidyIte tidyDiverged (tidyPure _))
  | succ fuel ih =>
    exact tidyRead (fun _ => tidyIte (tidyBind tidyTradeHead (fun _ => ih)) (tidyPure _))

theorem tidyMatchLevels (inner fuel : Nat) :
    Tidy (some aggressor) (matchLevels env b instrumentId aggressor side limitPrice isMarket
      inner fuel) := by
  induction fuel with
  | zero => exact tidyRead (fun _ => tidyIte tidyDiverged (tidyPure _))
  | succ fuel ih =>
    exact tidyRead (fun _ => tidyIte (tidyBind (tidyMatchLevel _) (fun _ => ih)) (tidyPure _))

def Releases (slot : Slot) (program : Op α) : Prop :=
  ∀ s : Session, Drained (some slot) s.engine →
    wp program (fun _ t => Drained none t.engine) (fun why _ => why ≠ .memory) s

theorem releasesThen {f : α → Op β} (first : Tidy (some slot) program)
    (rest : ∀ a, Releases slot (f a)) : Releases slot (program >>= f) := by
  intro s drained
  rw [wpBind]
  exact wpMono (first s drained) (fun a t drained' => rest a t drained') (fun _ _ other => other)

theorem emptiedReleases (event : Event) : Releases slot (do
    update (fun engine => engine.putRecord slot (fun rec => { rec with openQty := 0 }))
    emit env event) := by
  intro s drained
  simp only [update, wpBind, wpModify]
  exact tidyEmit event _ (drainedEmptied drained)

theorem disposeReleases : Releases slot (disposeRemainder env b slot order price) := by
  intro s drained
  simp only [disposeRemainder, current, wpBind, wpGet, wpPure, wpIte]
  refine ⟨fun _ => ⟨fun _ => drainedAdd drained, fun _ => emptiedReleases _ s drained⟩,
    fun spent t inside _ holds => ?_⟩
  by_cases here : t = slot
  · rw [here] at holds
    exact absurd holds spent
  · exact drained t inside (fun same => here (Option.some.inj same)) holds

theorem executeReleases : Releases slot (execute env b slot order price) := by
  have both : Releases slot (matchAndDispose env b slot order price) :=
    releasesThen (tidyRead (fun _ => tidyMatchLevels _ _)) (fun _ => disposeReleases)
  refine releasesThen (fun _ drained => drained) (fun engine => ?_)
  split
  · split
    · exact fun _ _ => by simp
    · exact both
    · exact emptiedReleases _
  · exact both

theorem enterDrained (drained : Drained none s.engine) (stored : s.engine.pool.Stored)
    (small : s.engine.pool.size < 2 ^ 32) :
    wp (enterOrder env order) (fun _ t => Drained none t.engine)
      (fun _ t => Drained none t.engine) s := by
  simp only [enterOrder, allocate, current, update, insertOrder, wpBind, wpGet, wpPure]
  cases allocated : s.engine.pool.allocate env.chunk with
  | none => exact drained
  | some result =>
    obtain ⟨slot, pool⟩ := result
    have named := @drainedNamed _ none slot (drainedAllocate drained stored small allocated) order
    simp only [wpBind, wpModify, wpPure]
    split
    · exact named
    · exact drainedSame named rfl (fun _ => rfl) (fun _ => rfl)

theorem submitDrained (drained : Drained none s.engine) (stored : s.engine.pool.Stored)
    (small : s.engine.pool.size < 2 ^ 32) :
    wp (submit env order) (fun _ t => Drained none t.engine) (fun why t => why = .memory →
      Drained none t.engine) s := by
  have said : ∀ (event : Event) (t : Session), Drained none t.engine →
      wp (emit env event) (fun _ t => Drained none t.engine)
      (fun why t => why = .memory → Drained none t.engine) t :=
    fun event t drained => wpMono (tidyEmit event t drained) (fun _ _ after => after)
      (fun _ _ other same => absurd same other)
  simp only [submit, current, wpBind, wpGet, wpPure, wpIte]
  refine ⟨fun _ => said _ s drained, fun _ => ?_⟩
  split
  · exact said _ s drained
  rename_i b _
  rw [wpIte]
  refine ⟨fun _ => said _ s drained, fun _ => ?_⟩
  rw [wpBind]
  refine wpMono (enterDrained drained stored small) (fun slot t entered => ?_)
    (fun _ _ early _ => early)
  split
  · exact said _ t entered
  · have accepted : wp (accept env slot order) (fun _ u => Drained (some slot) u.engine)
        (fun why _ => why ≠ .memory) t := by
      simp only [accept, update, wpBind, wpModify]
      exact tidyEmit _ _ (drainedHand entered)
    rw [wpBind]
    refine wpMono accepted (fun _ u inHand => ?_) (fun _ _ other same => absurd same other)
    exact wpMono (executeReleases u inHand) (fun _ _ after => after)
      (fun _ _ other same => absurd same other)

theorem emitEngine (event : Event) :
    wp (emit env event) (fun _ t => t.engine = s.engine) (fun _ t => t.engine = s.engine) s := by
  simp only [emit, wpBind, wpModify, wpGet, wpIte, wpThrow, wpPure, implies_true, and_self]

theorem idleCancel (request : CancelOrder) (idle : ¬Withdrawing s.engine env (.cancel request)) :
    wp (cancel env request) (fun _ t => t.engine = s.engine)
      (fun _ t => t.engine = s.engine) s := by
  have missing : s.engine.findOpen request.orderId = none := by
    by_contra found
    exact idle found
  simp only [cancel, current, wpBind, wpGet, wpPure, wpIte, missing]
  exact ⟨fun _ => emitEngine _, fun _ => emitEngine _⟩

theorem idleReplace (request : ReplaceOrder) (idle : ¬Withdrawing s.engine env (.replace request)) :
    wp (replace env request) (fun _ t => t.engine = s.engine)
      (fun _ t => t.engine = s.engine) s := by
  simp only [replace, current, wpBind, wpGet, wpPure, wpIte]
  refine ⟨fun _ => emitEngine _, fun _ => ?_⟩
  split
  · exact emitEngine _
  rename_i slot found
  simp only [wpIte]
  refine ⟨fun nothing => absurd ⟨slot, found, .inl nothing⟩ idle, fun _ =>
    ⟨fun _ => emitEngine _, fun unused =>
    ⟨fun _ => emitEngine _, fun aligned => ⟨fun _ => emitEngine _, fun inside => ?_⟩⟩⟩⟩
  have noSlot : s.engine.pool.allocate env.chunk = none := by
    by_contra some
    exact idle ⟨slot, found, .inr ⟨unused, by simpa using aligned, inside, some⟩⟩
  simp only [replaceSlot, enterReplacement, allocate, current, wpBind, wpGet, wpPure, noSlot,
    wpThrow]

end Tidiness

section Runs
variable {engine : Engine} {venue : Venue} {queues : Nat → Queues} {env : Env}

theorem callDrained (sim : Sim engine venue) (room : engine.pool.size < kInvalidSlot.toNat)
    (quiet : env.Quiet) {request : Request} (idle : ¬Withdrawing engine env request)
    (drained : Drained none engine) : Drained none (call env request engine).engine := by
  cases request with
  | cancel request =>
    have same : (call env (.cancel request) engine).engine = engine :=
      @callEnds env (.cancel request) engine (fun t => t.engine = engine) (idleCancel request idle)
    rw [same]
    exact drained
  | replace request =>
    have same : (call env (.replace request) engine).engine = engine :=
      @callEnds env (.replace request) engine (fun t => t.engine = engine)
        (idleReplace request idle)
    rw [same]
    exact drained
  | submit order =>
    have refines := @performRefines env { engine := engine } venue sim room (.submit order)
    obtain ⟨_, rep, _, _⟩ := sim
    have both :=
      wpAnd refines (@submitDrained env order { engine := engine } drained rep.stored
        (poolSmall rep))
    -- with a listener that returns, only a lack of memory ends the call early
    refine callEnds (wpMono both (fun _ t after => after.2) (fun why t early => early.2 ?_))
    rcases early.1 with ⟨_, throws, _⟩ | ⟨memory, _⟩
    · rw [quiet] at throws
      contradiction
    · exact memory

theorem memSide (rep : Rep engine queues) {b : Nat} (inside : b < engine.books.size) {side : Side}
    {slot : Slot} :
    slot ∈ sideSlots engine b side ↔ ∃ level, slot ∈ queues b side level := by
  simp only [sideSlots, List.mem_flatMap, List.mem_range]
  constructor
  · rintro ⟨i, level, member⟩
    rw [levelSlotsEqQueue rep inside level] at member
    exact ⟨i, member⟩
  · rintro ⟨i, member⟩
    have level := occupiedInside (rep.shape b inside) member
    refine ⟨i, level, ?_⟩
    rwa [levelSlotsEqQueue rep inside level]

theorem memBook (rep : Rep engine queues) {b : Nat} (inside : b < engine.books.size) {slot : Slot} :
    slot ∈ [Side.buy, Side.sell].flatMap (sideSlots engine b) ↔ ∃ side level,
      slot ∈ queues b side level := by
  simp only [List.mem_flatMap, memSide rep inside]
  constructor
  · rintro ⟨side, _, level, member⟩
    exact ⟨side, level, member⟩
  · rintro ⟨side, level, member⟩
    exact ⟨side, by cases side <;> simp, level, member⟩

theorem sideNodup (rep : Rep engine queues) {b : Nat} (inside : b < engine.books.size)
    (side : Side) : (sideSlots engine b side).Nodup := by
  have shape := rep.shape b inside
  refine List.nodup_flatMap.mpr ⟨fun i listed => ?_,
    List.nodup_range.pairwise_of_forall_ne fun i listedI j listedJ apart => ?_⟩
  · rw [levelSlotsEqQueue rep inside (List.mem_range.mp listed)]
    exact (shape.queue side i (List.mem_range.mp listed)).nodup
  · intro slot here there
    rw [levelSlotsEqQueue rep inside (List.mem_range.mp listedI)] at here
    rw [levelSlotsEqQueue rep inside (List.mem_range.mp listedJ)] at there
    exact apart (oneQueue shape here there).2.symm

theorem bookedNodup (rep : Rep engine queues) : (bookedSlots engine).Nodup := by
  refine List.nodup_flatMap.mpr ⟨fun b listed => ?_,
    List.nodup_range.pairwise_of_forall_ne fun b listedB c listedC apart => ?_⟩
  · have inside := List.mem_range.mp listed
    refine List.nodup_flatMap.mpr ⟨fun side _ => sideNodup rep inside side, ?_⟩
    refine List.Nodup.pairwise_of_forall_ne
      (by decide) fun side _ other _ apart slot here there => ?_
    obtain ⟨_, member⟩ := (memSide rep inside).mp here
    obtain ⟨_, member'⟩ := (memSide rep inside).mp there
    exact apart (oneQueue (rep.shape b inside) member member').1.symm
  · intro slot here there
    have insideB := List.mem_range.mp listedB
    have insideC := List.mem_range.mp listedC
    obtain ⟨_, _, member⟩ := (memBook rep insideB).mp here
    obtain ⟨_, _, member'⟩ := (memBook rep insideC).mp there
    exact apart (oneBook rep insideB insideC member member')

theorem bookedPerm (rep : Rep engine queues) :
    (bookedSlots engine).Perm ((slotsUsed engine).filter fun slot =>
      (engine.pool.get slot).isOpen) := by
  refine (List.perm_ext_iff_of_nodup (bookedNodup rep) ((slotsUsedNodup rep.narrow).filter _)).mpr
    (fun slot => ?_)
  rw [List.mem_filter, memSlotsUsed rep.narrow, bookedSlots, List.mem_flatMap]
  constructor
  · rintro ⟨b, listed, member⟩
    have inside := List.mem_range.mp listed
    obtain ⟨side, level, queued⟩ := (memBook rep inside).mp member
    have home := (rep.shape b inside).home side level slot queued
    exact ⟨home.inside, home.isOpen⟩
  · rintro ⟨real, isOpen⟩
    obtain ⟨b, inside, side, level, queued⟩ := rep.housed slot real isOpen
    exact ⟨b, List.mem_range.mpr inside, (memBook rep inside).mpr ⟨side, level, queued⟩⟩

theorem openInFilter (pool : OrderPool) (slots : List Slot)
    (drained : ∀ slot ∈ slots, 0 < (pool.get slot).openQty → (pool.get slot).isOpen = true) :
    pool.openIn (slots.filter fun slot => (pool.get slot).isOpen) = pool.openIn slots := by
  induction slots with
  | nil => rfl
  | cons slot rest ih =>
    have later := ih (fun s member => drained s (List.mem_cons_of_mem _ member))
    have here := drained slot List.mem_cons_self
    simp only [OrderPool.openIn] at later ⊢
    cases isOpen : (pool.get slot).isOpen with
    | true => simp [isOpen, later]
    | false =>
      have empty : (pool.get slot).openQty.toNat = 0 := by
        rw [isOpen, UInt32.lt_iff_toNat_lt] at here
        simpa using here
      simp [isOpen, later, empty]

theorem drainedSettled (sim : Sim engine venue) (drained : Drained none engine) :
    RecordsSettled engine := by
  obtain ⟨queues, rep, live, _⟩ := sim
  refine ⟨fun slot inside => ⟨drained slot inside (Option.some_ne_none slot), fun isOpen => ?_⟩, ?_⟩
  · obtain ⟨b, within, side, level, queued⟩ := rep.housed slot inside isOpen
    exact UInt32.lt_iff_toNat_lt.mpr (by simpa using (live b within side level slot queued).left)
  · have all : ∀ slot ∈ slotsUsed engine, 0 < (engine.pool.get slot).openQty →
        (engine.pool.get slot).isOpen = true :=
      fun slot member => drained slot ((memSlotsUsed rep.narrow).mp member)
        (Option.some_ne_none slot)
    rw [recordedQuantity, bookedQuantity, ← openInFilter engine.pool _ all]
    exact (((bookedPerm rep).map fun slot => (engine.pool.get slot).openQty.toNat).sum_eq).symm

theorem alwaysDrained (actions : List Action) :
    (∀ action ∈ actions, action.Returns) → Roomy (after actions) →
    (∀ earlier env request later, actions = earlier ++ .call env request :: later →
      ¬Withdrawing (after earlier) env request) →
    Drained none (after actions) := by
  induction actions using List.reverseRecOn with
  | nil => exact fun _ _ _ slot impossible => absurd impossible (Nat.not_lt_zero _)
  | append_singleton actions action ih =>
    rw [afterNext]
    intro returns roomy idle
    have returnsBefore : ∀ action ∈ actions, action.Returns :=
      fun action member => returns action (List.mem_append_left _ member)
    have idleBefore : ∀ earlier env request later, actions = earlier ++ .call env request :: later →
        ¬Withdrawing (after earlier) env request :=
      fun earlier env request later split => idle earlier env request (later ++ [action])
        (by simp [split])
    cases action with
    | call env request =>
      have roomyStart := roomyBefore (callGrown env request (after actions)) roomy
      obtain ⟨venue, sim, _⟩ := reached keptTrivial actions roomyStart
      have quiet : env.Quiet := returns (.call env request) (by simp)
      exact callDrained sim roomyStart.slots quiet (idle actions env request [] rfl)
        (ih returnsBefore roomyStart idleBefore)
    | configure trouble instruments =>
      rcases actConfigure actions trouble instruments with same | ⟨list, _, installed⟩
      · rw [same] at roomy ⊢
        exact ih returnsBefore roomy idleBefore
      · intro slot inside
        rw [installed.pool, (OrderPool.reserveEmpty kDefaultOrderCapacity).1] at inside
        exact absurd inside (Nat.not_lt_zero _)

theorem closedRecordsHoldNothing (actions : List Action)
    (returns : ∀ action ∈ actions, action.Returns)
    (roomy : Roomy (after actions))
    (idle : ∀ earlier env request later, actions = earlier ++ .call env request :: later →
      ¬Withdrawing (after earlier) env request) :
    ∀ earlier later, actions = earlier ++ later → RecordsSettled (after earlier) := by
  rintro earlier later rfl
  have roomyThen := roomyEarlier roomy
  obtain ⟨venue, sim, _⟩ := reached keptTrivial earlier roomyThen
  refine drainedSettled sim
    (alwaysDrained earlier (fun action member =>
      returns action (List.mem_append_left _ member)) roomyThen ?_)
  exact fun before env request between split => idle before env request (between ++ later)
    (by simp [split])

end Runs

theorem filledSellHoldsNothing :
    RecordsSettled (after (calmRun [⟨7, 100000, 1000⟩]
      [.submit ⟨1, 7, .sell, .limit, .day, 100000, 5⟩,
        .submit ⟨2, 7, .buy, .limit, .ioc, 100000, 9⟩])) := by
  refine closedRecordsHoldNothing _ (by simp [calmRun, Action.Returns, Env.calm, Env.Quiet])
    (roomyOf (by decide +kernel) (by decide +kernel)) (fun earlier env request later split => ?_) _
    [] (List.append_nil _).symm
  have member : Action.call env request ∈
      calmRun [⟨7, 100000, 1000⟩] [.submit ⟨1, 7, .sell, .limit, .day, 100000, 5⟩,
      .submit ⟨2, 7, .buy, .limit, .ioc, 100000, 9⟩] := by
    rw [split]
    simp
  simp only [calmRun, List.map_cons, List.map_nil, List.mem_cons, Action.call.injEq, reduceCtorEq,
    false_or, List.not_mem_nil, or_false] at member
  rcases member with ⟨_, rfl⟩ | ⟨_, rfl⟩ <;> exact id

theorem canceledSellHoldsQuantity : ¬∀ actions, (∀ action ∈ actions, action.Returns) →
    Roomy (after actions) →
    RecordsSettled (after actions) := by
  intro promised
  have settled :=
    promised (calmRun [⟨7, 100000, 1000⟩]
      [.submit ⟨1, 7, .sell, .limit, .day, 100000, 5⟩, .cancel ⟨1⟩])
    (by simp [calmRun, Action.Returns, Env.calm, Env.Quiet])
    (roomyOf (by decide +kernel) (by decide +kernel))
  have isOpen := (settled.holding 0 (by decide +kernel)).mp (by decide +kernel)
  exact absurd isOpen (by decide +kernel)

end Engine
end Xmatch
