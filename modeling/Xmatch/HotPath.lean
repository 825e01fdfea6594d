import Xmatch.Rejections

/-! What `configure` reserves is enough: until as many calls have been made as it has reserved
slots for, no call allocates, and none can fail for lack of memory. -/
namespace Xmatch

namespace FlatHashMap

theorem placeSize (map : FlatHashMap) (key : UInt64) (value : UInt32) :
    (map.place key value).size ≤ map.size + 1 ∧ (map.place key value).capacity = map.capacity := by
  unfold place
  split
  · exact ⟨Nat.le_refl _, rfl⟩
  · exact ⟨Nat.le_succ _, rfl⟩

theorem assignSize (map : FlatHashMap) (key : UInt64) (value : UInt32) :
    (map.assignExisting key value).size = map.size ∧
      (map.assignExisting key value).capacity = map.capacity := by
  unfold assignExisting
  split <;> exact ⟨rfl, rfl⟩

theorem insertPlaces {map : FlatHashMap} (room : map.size + 1 ≤ map.capacity * 7 / 10)
    (memory : Bool) (key : UInt64) (value : UInt32) :
    map.insert memory key value = some (map.place key value) := by
  rw [insert, if_neg (Nat.not_lt.mpr room)]

end FlatHashMap

namespace OrderPool

theorem reserveChunks (nSlots : Nat) :
    (reserve {} nSlots).chunks.size = (nSlots + kChunkSize - 1) / kChunkSize := by
  have grows : ∀ (n : Nat) (pool : OrderPool),
      ((List.range n).foldl (fun pool _ => pool.addChunk) pool).chunks.size =
      pool.chunks.size + n := by
    intro n
    induction n with
    | zero => exact fun pool => rfl
    | succ n ih =>
      intro pool
      rw [List.range_succ, List.foldl_append, List.foldl_cons, List.foldl_nil, addChunk,
        Buffer.sizePush, ih]
      rfl
  have size := grows ((nSlots + kChunkSize - 1) / kChunkSize - 0) {}
  rw [reserve]
  exact size.trans (by simp)

theorem allocateStays {pool : OrderPool} (room : pool.size / kChunkSize < pool.chunks.size)
    (memory : Bool) :
    pool.allocate memory = pool.allocate true ∧ ∃ slot pool',
      pool.allocate memory = some (slot, pool') ∧
      pool'.chunks.size = pool.chunks.size := by
  have chunk : ¬pool.chunks.size ≤ pool.size / kChunkSize := by omega
  simp only [allocate, chunk, if_false, Option.map_some]
  exact ⟨trivial, _, _, rfl, rfl⟩

end OrderPool

namespace OrderBook
variable (pool : OrderPool) (book : OrderBook) (slot newSlot : Slot) (side : Side) (price : Int)

theorem addRestingChunks :
    (addResting pool book slot side price).1.chunks.size = pool.chunks.size := by
  simp only [addResting, joinNextChunks, OrderPool.chunksModify]

theorem removeRestingChunks : (removeResting pool book slot).1.chunks.size = pool.chunks.size := by
  simp only [removeResting, bypass, withdraw, joinNextChunks, joinPrevChunks,
    OrderPool.chunksModify]

theorem replaceInPlaceChunks :
    (replaceInPlace pool book slot newSlot).1.chunks.size = pool.chunks.size := by
  simp only [replaceInPlace, splice, withdraw, joinNextChunks, joinPrevChunks,
    OrderPool.chunksModify]

end OrderBook

def Env.supplied (env : Env) : Env := ⟨env.throws, true, true⟩

namespace Engine
open OrderBook Effect

structure Provided (slots ids : Nat) (engine : Engine) : Prop where
  slots : engine.pool.size ≤ slots
  chunks : engine.pool.chunks.size = 16
  ids : engine.orderIndex.size ≤ ids
  capacity : engine.orderIndex.capacity = 33554432

/- Within the provision the program runs as it would with memory, and does not end for lack of
it. -/
abbrev Served {α : Type} (n m : Nat × Nat) (x y : Op α) : Prop :=
  Likewise (fun s : Session => Provided n.1 n.2 s.engine) (fun s => Provided m.1 m.2 s.engine)
    (· ≠ Abort.memory) x y

section Serving
variable {env : Env} {α β : Type} {n m k : Nat × Nat} {b : Nat} {slot newSlot : Slot}
  {order : NewOrder}

theorem providedMono {engine : Engine} {slots ids slots' ids' : Nat}
    (provided : Provided slots ids engine) (slotsUp : slots ≤ slots') (idsUp : ids ≤ ids') :
    Provided slots' ids' engine :=
  ⟨Nat.le_trans provided.slots slotsUp, provided.chunks, Nat.le_trans provided.ids idsUp,
    provided.capacity⟩

theorem servedRead {f g : Engine → Op β}
    (rest : ∀ engine, Provided n.1 n.2 engine → Served n m (f engine) (g engine)) :
    Served n m (current >>= f) (current >>= g) :=
  likewiseGet (fun s holds => rest s.engine holds s holds)

theorem servedUpdate {f : Engine → Engine}
    (size : ∀ engine, (f engine).pool.size = engine.pool.size)
    (chunks : ∀ engine, (f engine).pool.chunks.size = engine.pool.chunks.size)
    (index : ∀ engine, (f engine).orderIndex = engine.orderIndex) :
    Served n n (update f) (update f) := by
  refine likewiseModify (fun s provided => ⟨?_, ?_, ?_, ?_⟩)
  · exact (size _).trans_le provided.slots
  · exact (chunks _).trans provided.chunks
  · rw [index]
    exact provided.ids
  · rw [index]
    exact provided.capacity

theorem servedEmit {event : Event} : Served n n (emit env event) (emit env.supplied event) :=
  likewiseBind (likewiseModify (fun _ provided => provided)) (fun _ provided => provided) (fun _ =>
    likewiseGet (fun s provided => likewiseIte (likewiseThrow (by decide) (fun _ h => h))
      (likewisePure _ (fun _ h => h)) s provided))

theorem servedBind {x y : Op α} {f g : α → Op β} (first : Served n n x y)
    (rest : ∀ a, Served n m (f a) (g a)) (slots : n.1 ≤ m.1) (ids : n.2 ≤ m.2) :
    Served n m (x >>= f) (y >>= g) :=
  likewiseBind first (fun _ provided => providedMono provided slots ids) rest

theorem servedAllocate (room : n.1 < kDefaultOrderCapacity) :
    Served n (n.1 + 1, n.2) (allocate env) (allocate env.supplied) := by
  refine servedRead (fun engine provided => ?_)
  have slots := provided.slots
  have chunk : engine.pool.size / OrderPool.kChunkSize < engine.pool.chunks.size := by
    rw [provided.chunks]
    unfold kDefaultOrderCapacity at room
    unfold OrderPool.kChunkSize
    omega
  obtain ⟨same, taken, pool, allocated, chunks⟩ := OrderPool.allocateStays chunk env.chunk
  have size := OrderPool.allocateSize allocated
  have supplied : engine.pool.allocate env.supplied.chunk = some (taken, pool) :=
    same.symm.trans allocated
  rw [allocated, supplied]
  have stored : Served n (n.1 + 1, n.2) (update (fun engine => { engine with pool := pool }))
      (update (fun engine => { engine with pool := pool })) := by
    refine likewiseModify (fun s others =>
      ⟨?_, chunks.trans provided.chunks, others.ids, others.capacity⟩)
    simp only [size]
    omega
  exact likewiseBind stored (fun _ holds => holds)
    (fun _ => likewisePure taken (fun _ holds => holds))

theorem servedInsertOrder (room : n.2 < kDefaultOrderCapacity) (id : OrderId) :
    Served n (n.1, n.2 + 1) (insertOrder env id slot) (insertOrder env.supplied id slot) := by
  refine servedRead (fun engine provided => ?_)
  have load : engine.orderIndex.size + 1 ≤ engine.orderIndex.capacity * 7 / 10 := by
    rw [provided.capacity]
    have ids := provided.ids
    unfold kDefaultOrderCapacity at room
    omega
  obtain ⟨size, capacity⟩ := FlatHashMap.placeSize engine.orderIndex id slot
  rw [FlatHashMap.insertPlaces load, FlatHashMap.insertPlaces load]
  refine likewiseModify (fun s others =>
    ⟨others.slots, others.chunks, ?_, capacity.trans provided.capacity⟩)
  have ids := provided.ids
  simp only
  omega

end Serving

section Pieces
variable {env : Env} {n : Nat × Nat} {b : Nat} {instrumentId : InstrumentId}
  {aggressor slot newSlot : Slot} {side : Side} {idx : UInt32} {price : Int} {isMarket : Bool}
  {order : NewOrder}

theorem servedIdle : Served n n (pure () : Op Unit) (pure ()) :=
  likewisePure _ (fun _ provided => provided)

theorem servedDiverged : Served n n (throw .diverged : Op Unit) (throw .diverged) :=
  likewiseThrow (by decide) (fun _ provided => provided)

theorem servedThen {α β : Type} {x y : Op α} {f g : α → Op β} (first : Served n n x y)
    (rest : ∀ a, Served n n (f a) (g a)) :
    Served n n (x >>= f) (y >>= g) := servedBind first rest (Nat.le_refl _) (Nat.le_refl _)

theorem servedRecord (f : OrderRecord → OrderRecord) :
    Served n n (update (fun engine => engine.putRecord slot f))
      (update (fun engine => engine.putRecord slot f)) :=
  servedUpdate (fun _ => rfl) (fun _ => rfl) (fun _ => rfl)

theorem servedRemove : Served n n
    (update (fun engine => engine.putBook b (removeResting engine.pool (engine.books.read b) slot)))
    (update (fun engine =>
      engine.putBook b (removeResting engine.pool (engine.books.read b) slot))) :=
  servedUpdate (fun _ => removeRestingSize ..) (fun _ => removeRestingChunks ..) (fun _ => rfl)

theorem servedAdd : Served n n
    (update (fun engine =>
      engine.putBook b (addResting engine.pool (engine.books.read b) slot side price)))
    (update (fun engine =>
      engine.putBook b (addResting engine.pool (engine.books.read b) slot side price))) :=
  servedUpdate (fun _ => addRestingSize ..) (fun _ => addRestingChunks ..) (fun _ => rfl)

theorem servedTradeHead : Served n n (tradeHead env b instrumentId aggressor side idx)
    (tradeHead env.supplied b instrumentId aggressor side idx) := by
  refine servedRead (fun engine _ =>
    servedThen ?_ (fun _ => servedThen (servedEmit) (fun _ => servedThen ?_ (fun _ =>
    servedRead (fun settled _ => likewiseIte servedRemove servedIdle)))))
  · exact servedUpdate (fun _ => rfl) (fun _ => rfl) (fun _ => rfl)
  · exact servedUpdate (fun _ => rfl) (fun _ => rfl) (fun _ => rfl)

theorem servedMatchLevel (fuel : Nat) :
    Served n n (matchLevel env b instrumentId aggressor side idx fuel)
    (matchLevel env.supplied b instrumentId aggressor side idx fuel) := by
  induction fuel with
  | zero => exact servedRead (fun engine _ => likewiseIte servedDiverged servedIdle)
  | succ fuel ih =>
    exact servedRead (fun engine _ =>
      likewiseIte (servedThen servedTradeHead (fun _ => ih)) servedIdle)

theorem servedMatchLevels (inner fuel : Nat) :
    Served n n (matchLevels env b instrumentId aggressor side price isMarket inner fuel)
      (matchLevels env.supplied b instrumentId aggressor side price isMarket inner fuel) := by
  induction fuel with
  | zero => exact servedRead (fun engine _ => likewiseIte servedDiverged servedIdle)
  | succ fuel ih =>
    exact servedRead (fun engine _ =>
      likewiseIte (servedThen (servedMatchLevel inner) (fun _ => ih)) servedIdle)

theorem servedRunMatching :
    Served n n (runMatching env b instrumentId aggressor side price isMarket)
    (runMatching env.supplied b instrumentId aggressor side price isMarket) :=
  servedRead (fun _ _ => servedMatchLevels _ _)

theorem servedDispose :
    Served n n (disposeRemainder env b slot order price)
      (disposeRemainder env.supplied b slot order price) :=
  servedRead (fun _ _ => likewiseIte
    (likewiseIte servedAdd (servedThen (servedRecord _) (fun _ => servedEmit))) servedIdle)

theorem servedExecute :
    Served n n (execute env b slot order price) (execute env.supplied b slot order price) := by
  have both : Served n n (matchAndDispose env b slot order price)
      (matchAndDispose env.supplied b slot order price) :=
    servedThen servedRunMatching (fun _ => servedDispose)
  refine servedRead (fun engine _ => likewiseIte ?_ both)
  cases canFullyFill (engine.books.read b) order.side (order.type = .market) price
    order.quantity with
  | none => exact servedDiverged
  | some fits =>
    cases fits with
    | true => exact both
    | false => exact servedThen (servedRecord _) (fun _ => servedEmit)

end Pieces

section Requests
variable {env : Env} {n b : Nat} {slot newSlot : Slot} {order : NewOrder}

theorem servedEnterOrder (room : n < kDefaultOrderCapacity) :
    Served (n, n) (n + 1, n + 1) (enterOrder env order) (enterOrder env.supplied order) :=
  likewiseBind (servedAllocate room) (fun _ provided => providedMono provided (Nat.le_refl _)
    (Nat.le_succ n)) (fun _ =>
    likewiseBind (servedRecord _) (fun _ provided => providedMono provided (Nat.le_refl _)
      (Nat.le_succ n)) (fun _ =>
      likewiseBind (servedInsertOrder room _) (fun _ provided => provided)
        (fun _ => likewisePure _ (fun _ provided => provided))))

theorem servedStay {α : Type} {x y : Op α} (served : Served (n, n) (n, n) x y) :
    Served (n, n) (n + 1, n + 1) x y :=
  likewiseMono served (fun _ provided => provided) (fun _ provided =>
    providedMono provided (Nat.le_succ n) (Nat.le_succ n))

theorem servedRejected {event : Event} :
    Served (n, n) (n + 1, n + 1) (emit env event) (emit env.supplied event) :=
  servedStay servedEmit

theorem servedSubmit (room : n < kDefaultOrderCapacity) :
    Served (n, n) (n + 1, n + 1) (submit env order) (submit env.supplied order) := by
  refine servedRead (fun engine _ => likewiseIte servedRejected ?_)
  cases engine.findBook order.instrumentId with
  | none => exact servedRejected
  | some b =>
    refine likewiseIte servedRejected
      (likewiseBind (servedEnterOrder room) (fun _ provided => provided) (fun slot => ?_))
    cases invalid (engine.books.read b) order with
    | some reason => exact servedEmit
    | none =>
      exact servedThen (servedThen (servedRecord _) (fun _ => servedEmit)) (fun _ => servedExecute)

theorem servedCancelSlot (id : OrderId) :
    Served (n, n) (n + 1, n + 1) (cancelSlot env id slot) (cancelSlot env.supplied id slot) :=
  servedStay (servedRead (fun _ _ => servedThen servedRemove (fun _ => servedEmit)))

theorem servedCancel (request : CancelOrder) :
    Served (n, n) (n + 1, n + 1) (cancel env request) (cancel env.supplied request) := by
  refine servedRead (fun engine _ => likewiseIte servedRejected ?_)
  cases engine.findOpen request.orderId with
  | none => exact servedRejected
  | some slot => exact servedCancelSlot request.orderId

theorem servedAssign (id : OrderId) {m : Nat × Nat} : Served m m
    (update (fun engine =>
      { engine with orderIndex := engine.orderIndex.assignExisting id newSlot }))
    (update (fun engine =>
      { engine with orderIndex := engine.orderIndex.assignExisting id newSlot })) := by
  refine likewiseModify (fun s provided => ?_)
  obtain ⟨size, capacity⟩ := FlatHashMap.assignSize s.engine.orderIndex id newSlot
  exact ⟨provided.slots, provided.chunks, by rw [size]; exact provided.ids,
    capacity.trans provided.capacity⟩

theorem servedEnterReplacement (room : n < kDefaultOrderCapacity) (request : ReplaceOrder)
    (old : OrderRecord) :
    Served (n, n) (n + 1, n + 1) (enterReplacement env request old)
      (enterReplacement env.supplied request old) := by
  have more : ∀ s : Session, Provided (n + 1) n s.engine → Provided (n + 1) (n + 1) s.engine :=
    fun _ provided => providedMono provided (Nat.le_refl _) (Nat.le_succ n)
  refine likewiseBind (servedAllocate room) more
    (fun slot => likewiseBind (servedRecord _) more (fun _ => likewiseIte ?_ ?_))
  · exact likewiseBind (servedAssign _) more (fun _ => likewisePure _ more)
  · exact likewiseBind (servedInsertOrder room _) (fun _ provided => provided)
      (fun _ => likewisePure _ (fun _ provided => provided))

theorem servedRequeue {m : Nat × Nat} (request : ReplaceOrder) (old : OrderRecord) :
    Served m m (requeue env request b slot newSlot old)
      (requeue env.supplied request b slot newSlot old) := by
  have rest : ∀ _ : Unit, Served m m
      (do
        let engine ← current
        if 0 < (engine.pool.get newSlot).openQty then
          update (fun engine =>
            engine.putBook b (addResting engine.pool (engine.books.read b) newSlot old.side
              request.newPrice)))
      (do
        let engine ← current
        if 0 < (engine.pool.get newSlot).openQty then
          update (fun engine =>
            engine.putBook b (addResting engine.pool (engine.books.read b) newSlot old.side
              request.newPrice))) :=
    fun _ => servedRead (fun _ _ => likewiseIte servedAdd servedIdle)
  exact servedThen servedRemove (fun _ => servedThen servedEmit (fun _ =>
    likewiseIte (servedThen servedRunMatching rest) (rest ())))

theorem servedReplaceSlot (room : n < kDefaultOrderCapacity) (request : ReplaceOrder)
    (old : OrderRecord) :
    Served (n, n) (n + 1, n + 1) (replaceSlot env request b slot old)
      (replaceSlot env.supplied request b slot old) := by
  refine likewiseBind (servedEnterReplacement room request old) (fun _ provided => provided)
    (fun newSlot =>
    likewiseIte (servedRequeue request old) (servedThen ?_ (fun _ => servedEmit)))
  exact servedUpdate (fun _ => replaceInPlaceSize ..) (fun _ => replaceInPlaceChunks ..)
    (fun _ => rfl)

theorem servedReplace (room : n < kDefaultOrderCapacity) (request : ReplaceOrder) :
    Served (n, n) (n + 1, n + 1) (replace env request) (replace env.supplied request) := by
  refine servedRead (fun engine _ => likewiseIte servedRejected ?_)
  cases engine.findOpen request.orderId with
  | none => exact servedRejected
  | some slot =>
    exact likewiseIte (servedCancelSlot request.orderId)
      (likewiseIte servedRejected (likewiseIte servedRejected
      (likewiseIte servedRejected (servedReplaceSlot room request _))))

theorem servedPerform (room : n < kDefaultOrderCapacity) (request : Request) :
    Served (n, n) (n + 1, n + 1) (perform env request) (perform env.supplied request) := by
  cases request with
  | submit order => exact servedSubmit room
  | cancel request => exact servedCancel request
  | replace request => exact servedReplace room request

end Requests

def Action.supplied : Action → Action
  | .configure trouble instruments => .configure trouble instruments
  | .call env request => .call env.supplied request

section Runs
variable {engine : Engine} {n : Nat}

theorem callProvided (provided : Provided n n engine) (room : n < kDefaultOrderCapacity) (env : Env)
    (request : Request) :
    (perform env request).run.run { engine := engine } =
      (perform env.supplied request).run.run { engine := engine } ∧
      Provided (n + 1) (n + 1) (call env request engine).engine ∧
      ∀ session, (perform env request).run.run { engine := engine } ≠
        (.error .memory, session) := by
  obtain ⟨same, ends⟩ := servedPerform room request { engine := engine } provided
  refine ⟨same, callEnds (wpMono ends (fun _ _ after => after) (fun _ _ stopped => stopped.2)),
    fun session starved => ?_⟩
  rw [wp, starved] at ends
  exact ends.1 rfl

theorem actProvided (configured : engine.configured = true) (provided : Provided n n engine)
    (room : n < kDefaultOrderCapacity) (action : Action) :
    act engine action = act engine action.supplied ∧
      engine.answer action = engine.answer action.supplied ∧
      Provided (n + 1) (n + 1) (act engine action) := by
  cases action with
  | configure trouble instruments =>
    refine ⟨rfl, rfl, ?_⟩
    rw [act, configureAgain configured]
    exact providedMono provided (Nat.le_succ n) (Nat.le_succ n)
  | call env request =>
    obtain ⟨same, after, _⟩ := callProvided provided room env request
    have session : call env request engine = call env.supplied request engine :=
      congrArg Prod.snd same
    exact ⟨congrArg Session.engine session, by rw [Action.supplied, answer, answer, session], after⟩

theorem actConfigured (configured : engine.configured = true) (action : Action) :
    (act engine action).configured = true :=
  (actsGrown engine configured [action]).configured.trans configured

theorem runProvided (actions : List Action) :
    ∀ (engine : Engine) (n : Nat), engine.configured = true → Provided n n engine →
    n + actions.length ≤ kDefaultOrderCapacity →
    actions.foldl act engine = (actions.map Action.supplied).foldl act engine ∧
      answers actions engine = answers (actions.map Action.supplied) engine ∧
      Provided (n + actions.length) (n + actions.length) (actions.foldl act engine) := by
  induction actions with
  | nil => exact fun engine n _ provided _ => ⟨rfl, rfl, provided⟩
  | cons action rest ih =>
    intro engine n configured provided few
    rw [List.length_cons] at few ⊢
    obtain ⟨same, told, next⟩ := actProvided configured provided (by omega) action
    obtain ⟨state, shown, last⟩ := ih _ (n + 1) (actConfigured configured action) next (by omega)
    rw [show n + (rest.length + 1) = n + 1 + rest.length by omega]
    simp only [List.map_cons, List.foldl_cons, answers]
    rw [← same, ← told, state, shown]
    rw [state] at last
    exact ⟨rfl, rfl, last⟩

theorem installedProvided {before start : Engine} {instruments : List InstrumentConfig}
    (installed : Installed before instruments start) : Provided 0 0 start := by
  have table : FlatHashMap.empty.capacity = 16 ∧ FlatHashMap.empty.size = 0 := by decide +kernel
  obtain ⟨_, size, capacity, _, _⟩ := FlatHashMap.rehashValid FlatHashMap.emptyValid.1
    (FlatHashMap.capacityFor kDefaultOrderCapacity) (FlatHashMap.capacityForPower _)
  have grows : FlatHashMap.empty.reserve kDefaultOrderCapacity =
      FlatHashMap.empty.rehash (FlatHashMap.capacityFor kDefaultOrderCapacity) := by
    rw [FlatHashMap.reserve, if_pos]
    rw [table.1]
    decide +kernel
  refine ⟨?_, ?_, ?_, ?_⟩
  · rw [installed.pool, (OrderPool.reserveEmpty _).1]
  · rw [installed.pool, OrderPool.reserveChunks]
    decide
  · rw [installed.orderIndex, grows, size, table.2]
  · rw [installed.orderIndex, grows, capacity, table.2]
    decide +kernel

end Runs

/- A run of an engine that was accepted, against the same run with memory for every call. -/
structure NeverAllocates (start : Engine) (actions : List Action) : Prop where
  state : actions.foldl act start = (actions.map Action.supplied).foldl act start
  shown : answers actions start = answers (actions.map Action.supplied) start
  storage : (actions.foldl act start).pool.chunks.size = start.pool.chunks.size ∧
    (actions.foldl act start).orderIndex.capacity = start.orderIndex.capacity
  slots : (actions.foldl act start).pool.size ≤ actions.length
  served : ∀ earlier env request later, actions = earlier ++ .call env request :: later → ∀ session,
    (perform env request).run.run { engine := earlier.foldl act start } ≠ (.error .memory, session)

theorem hotPathNeverAllocates (trouble : Nat → Option Failure) (instruments : List InstrumentConfig)
    (start : Engine)
    (accepted : ({} : Engine).configure trouble (some instruments) = some (.ok, start))
    (actions : List Action) (few : actions.length ≤ kDefaultOrderCapacity) :
    NeverAllocates start actions := by
  obtain ⟨_, _, installed⟩ := configureInstalls accepted
  have provided := installedProvided installed
  have whole : ∀ earlier : List Action, earlier.length ≤ kDefaultOrderCapacity →
      Provided earlier.length earlier.length (earlier.foldl act start) := by
    intro earlier few
    have last := (runProvided earlier start 0 installed.configured provided (by omega)).2.2
    rwa [Nat.zero_add] at last
  obtain ⟨state, shown, _⟩ := runProvided actions start 0 installed.configured provided (by omega)
  have last := whole actions few
  refine ⟨state, shown,
    ⟨last.chunks.trans provided.chunks.symm, last.capacity.trans provided.capacity.symm⟩,
    last.slots, ?_⟩
  intro earlier env request later split
  rw [split, List.length_append, List.length_cons] at few
  exact (callProvided (whole earlier (by omega)) (by omega) env request).2.2

theorem twoOrdersNeverAllocate : NeverAllocates (after (calmRun [⟨7, 100000, 1000⟩] []))
    [.call ⟨fun _ => false, false, false⟩ (.submit ⟨1, 7, .sell, .limit, .day, 100000, 5⟩),
      .call ⟨fun _ => false, false, false⟩ (.submit ⟨2, 7, .buy, .limit, .day, 100000, 3⟩)] :=
  hotPathNeverAllocates (fun _ => none) [⟨7, 100000, 1000⟩] _
    (configuredStart (by decide +kernel)) _ (by decide)

end Engine
end Xmatch
