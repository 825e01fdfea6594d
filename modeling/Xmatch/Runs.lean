import Xmatch.Configuration
import Xmatch.Growth
import Xmatch.ReplaceSteps

/-! Whole runs: how a call may end, and what holds of every state that any sequence of
actions leads to. -/
namespace Xmatch

structure Venue.Proper (venue : Venue) : Prop where
  sorted : ∀ b side, Sorted side (venue.orders b side)
  nodup : ∀ b side, ((venue.orders b side).map (·.id)).Nodup
  once : ∀ b c side s, ∀ o ∈ venue.orders b side, ∀ o' ∈ venue.orders c s, o.id = o'.id →
    b = c ∧ side = s
  known : ∀ b side, ∀ o ∈ venue.orders b side, o.id ∈ venue.spent
  left : ∀ b side, ∀ o ∈ venue.orders b side, 0 < o.openQty
  fits : ∀ b side, ∀ o ∈ venue.orders b side, o.openQty + o.filledQty < 2 ^ 32
  traded : ∀ b side, ∀ o ∈ venue.orders b side, venue.traded o.id = o.filledQty

namespace Engine
open OrderBook Effect

section Properties
variable {engine : Engine} {queues : Nat → Queues} {venue : Venue} {credit b : Nat} {side : Side}

theorem ordersBeyond (view : View engine queues venue credit) (past : engine.books.size ≤ b)
    (side : Side) : venue.orders b side = [] := by
  have missing : venue.books[b]? = none := by
    rw [view.books, List.getElem?_map, List.getElem?_eq_none (by simpa using past)]
    rfl
  rw [Venue.orders, missing]
  rfl

theorem orderSlot (rep : Rep engine queues) (view : View engine queues venue credit) {o : Order} :
    o ∈ venue.orders b side ↔
      b < engine.books.size ∧ ∃ level, ∃ slot ∈ queues b side level,
        o = viewOrder engine.pool slot := by
  by_cases inside : b < engine.books.size
  · rw [ordersAt view inside, viewMember rep inside, and_iff_right inside]
  · rw [ordersBeyond view (Nat.not_lt.mp inside)]
    simp [inside]

theorem simProper (sim : Sim engine venue) : venue.Proper := by
  obtain ⟨queues, rep, live, view⟩ := sim
  refine ⟨fun b side => ?_, fun b side => ?_, fun b c side s o inB o' inC same => ?_,
    fun b side o member => ?_, fun b side o member => ?_, fun b side o member => ?_,
    fun b side o member => ?_⟩
  · by_cases inside : b < engine.books.size
    · rw [ordersAt view inside]
      exact viewSorted (rep.fitted b inside) (rep.shape b inside) side
    · rw [ordersBeyond view (Nat.not_lt.mp inside)]
      exact List.Pairwise.nil
  · by_cases inside : b < engine.books.size
    · rw [ordersAt view inside]
      exact viewIdsNodup rep inside side
    · rw [ordersBeyond view (Nat.not_lt.mp inside)]
      exact List.nodup_nil
  · obtain ⟨insideB, l, slot, here, rfl⟩ := (orderSlot rep view).mp inB
    obtain ⟨insideC, l', other, there, rfl⟩ := (orderSlot rep view).mp inC
    have twin := idUnique rep insideB insideC here there same
    subst twin
    have book := oneBook rep insideB insideC here there
    subst book
    exact ⟨rfl, (oneQueue (rep.shape b insideB) there here).1⟩
  · obtain ⟨inside, l, slot, here, rfl⟩ := (orderSlot rep view).mp member
    exact (view.spent _).mpr ⟨slot, rep.indexed b inside side l slot here⟩
  · obtain ⟨inside, l, slot, here, rfl⟩ := (orderSlot rep view).mp member
    exact (live b inside side l slot here).left
  · obtain ⟨inside, l, slot, here, rfl⟩ := (orderSlot rep view).mp member
    exact (live b inside side l slot here).fits
  · obtain ⟨inside, l, slot, here, rfl⟩ := (orderSlot rep view).mp member
    exact (view.traded _ slot (rep.indexed b inside side l slot here)).symm

end Properties

/- How a call ends, told by the moments of the venue. -/
inductive Outcome (env : Env) (request : Request) (venue : Venue) (session : Session) :
    Venue → Prop where
  | completed (follows : List.Forall₂ Follows session.log
    (Venue.perform wrappedFill request venue).1)
      (sim : Sim session.engine (Venue.perform wrappedFill request venue).2) :
      Outcome env request venue session (Venue.perform wrappedFill request venue).2
  | interrupted (n : Nat) (moment : Moment) (throws : env.throws session.events = true)
      (here : (Venue.perform wrappedFill request venue).1[n]? = some moment)
      (follows : List.Forall₂ Follows session.log
        ((Venue.perform wrappedFill request venue).1.take (n + 1)))
      (sim : Sim session.engine moment.venue) : Outcome env request venue session moment.venue
  | starved (short : env.chunk = false ∨ env.slots = false) (silent : session.log = [])
      (sim : Sim session.engine venue) : Outcome env request venue session venue

section Calls
variable {engine : Engine} {venue venue' : Venue} {env : Env} {request : Request}

theorem callOutcome (sim : Sim engine venue) (room : engine.pool.size < kInvalidSlot.toNat)
    (env : Env) (request : Request) :
    ∃ venue', Outcome env request venue (call env request engine) venue' := by
  have refines := @performRefines env { engine := engine } venue sim room request
  unfold Refines wp at refines
  unfold call
  cases ran : (perform env request).run.run { engine := engine } with
  | mk outcome session =>
    rw [ran] at refines
    cases outcome with
    | ok _ =>
      obtain ⟨callbacks, log, follows, sim'⟩ := refines
      rw [List.nil_append] at log
      exact ⟨_, .completed (by rw [log]; exact follows) sim'⟩
    | error why =>
      rcases refines with ⟨_, throws, n, moment, callbacks, here, log, follows, sim'⟩ | ⟨_, short,
        log, venue', same, sim'⟩
      · rw [List.nil_append] at log
        exact ⟨_, .interrupted n moment throws here (by rw [log]; exact follows) sim'⟩
      · cases Option.some.inj same
        exact ⟨_, .starved short log sim'⟩

theorem outcomeSim {session : Session} (outcome : Outcome env request venue session venue') :
    Sim session.engine venue' := by
  cases outcome with
  | completed _ sim => exact sim
  | interrupted _ _ _ _ _ sim => exact sim
  | starved _ _ sim => exact sim

theorem followsSplit {callback : Callback} {before later : List Callback} {moments : List Moment}
    (follows : List.Forall₂ Follows (before ++ callback :: later) moments) :
    ∃ pre moment post, moments = pre ++ moment :: post ∧ Follows callback moment ∧
      List.Forall₂ Follows later post := by
  induction before generalizing moments with
  | nil =>
    cases follows with
    | cons first rest => exact ⟨[], _, _, rfl, first, rest⟩
  | cons head before ih =>
    cases follows with
    | cons first rest =>
      obtain ⟨pre, moment, post, rfl, shows, after⟩ := ih rest
      exact ⟨_ :: pre, moment, post, rfl, shows, after⟩

theorem followsSome {callbacks : List Callback} {moments : List Moment}
    (follows : List.Forall₂ Follows callbacks moments) :
    ∀ callback ∈ callbacks, ∃ moment ∈ moments, Follows callback moment := by
  intro callback member
  obtain ⟨before, later, rfl⟩ := List.append_of_mem member
  obtain ⟨pre, moment, post, rfl, shows, _⟩ := followsSplit follows
  exact ⟨moment, by simp, shows⟩

theorem outcomeSeen {session : Session} (outcome : Outcome env request venue session venue') :
    ∀ callback ∈ session.log, ∃ moment ∈ (Venue.perform wrappedFill request venue).1,
      Follows callback moment := by
  cases outcome with
  | completed follows _ => exact followsSome follows
  | interrupted n moment _ _ follows _ =>
    intro callback member
    obtain ⟨moment, inTake, shows⟩ := followsSome follows callback member
    exact ⟨moment, List.mem_of_mem_take inTake, shows⟩
  | starved _ silent _ =>
    intro callback member
    rw [silent] at member
    contradiction

theorem followsEvents {callbacks : List Callback} {moments : List Moment}
    (follows : List.Forall₂ Follows callbacks moments) :
    callbacks.map (·.event) = moments.map (·.event) := by
  induction follows with
  | nil => rfl
  | cons first _ ih => rw [List.map_cons, List.map_cons, first.event, ih]

theorem quietOutcome {session : Session} (quiet : env.Quiet)
    (outcome : Outcome env request venue session venue') :
    (List.Forall₂ Follows session.log (Venue.perform wrappedFill request venue).1 ∧
        venue' = (Venue.perform wrappedFill request venue).2) ∨
      ((env.chunk = false ∨ env.slots = false) ∧ session.log = [] ∧ venue' = venue) := by
  cases outcome with
  | completed follows _ => exact .inl ⟨follows, rfl⟩
  | interrupted n moment throws _ _ _ =>
    rw [quiet] at throws
    contradiction
  | starved short silent _ => exact .inr ⟨short, silent, rfl⟩

theorem quietReturns (sim : Sim engine venue) (room : engine.pool.size < kInvalidSlot.toNat)
    (quiet : env.Quiet) (request : Request) (spoken : (call env request engine).log ≠ []) :
    (perform env request).run.run { engine := engine } = (.ok (), call env request engine) := by
  have refines := @performRefines env { engine := engine } venue sim room request
  unfold Refines wp at refines
  unfold call at spoken ⊢
  cases ran : (perform env request).run.run { engine := engine } with
  | mk outcome session =>
    rw [ran] at refines spoken
    cases outcome with
    | ok _ => rfl
    | error why =>
      rcases refines with ⟨_, throws, _⟩ | ⟨_, _, silent, _⟩
      · rw [quiet] at throws
        contradiction
      · exact absurd silent spoken

theorem calmCall (sim : Sim engine venue) (room : engine.pool.size < kInvalidSlot.toNat)
    (request : Request) :
    List.Forall₂ Follows (call .calm request engine).log
      (Venue.perform wrappedFill request venue).1 ∧
      Sim (call .calm request engine).engine (Venue.perform wrappedFill request venue).2 := by
  obtain ⟨venue', outcome⟩ := callOutcome sim room .calm request
  rcases quietOutcome calmQuiet outcome with ⟨follows, rfl⟩ | ⟨short, _, _⟩
  · exact ⟨follows, outcomeSim outcome⟩
  · rcases short with short | short <;> contradiction

theorem calmEvents (sim : Sim engine venue) (room : engine.pool.size < kInvalidSlot.toNat)
    (request : Request) :
    (call .calm request engine).events =
      (Venue.perform wrappedFill request venue).1.map (·.event) :=
  followsEvents (calmCall sim room request).1

end Calls

/- Some requests after an accepted configuration, with memory and a listener that returns. -/
def calmRun (instruments : List InstrumentConfig) (requests : List Request) : List Action :=
  .configure (fun _ => none) (some instruments) :: requests.map (.call .calm)

theorem configuredStart {instruments : List InstrumentConfig}
    (ok : ((({} : Engine).configure (fun _ => none) (some instruments)).map Prod.fst) = some .ok) :
    ({} : Engine).configure (fun _ => none) (some instruments) =
      some (.ok, after (calmRun instruments [])) := by
  obtain ⟨⟨result, engine⟩, ran, rfl⟩ := Option.map_eq_some_iff.mp ok
  have start : after (calmRun instruments []) = engine := by
    rw [after, calmRun, List.map_nil, List.foldl_cons, List.foldl_nil, act, ran]
  rw [ran, start]

theorem roomyBefore {engine engine' : Engine} (grown : Grown engine engine')
    (roomy : Roomy engine') : Roomy engine := by
  refine ⟨Nat.lt_of_le_of_lt grown.slots roomy.slots, fun b inside => ?_⟩
  have levels := roomy.levels b (by rw [grown.books]; exact inside)
  rw [bandLo, bandHi, (grown.frame b).ladder] at levels
  exact levels

theorem afterNext (actions : List Action) (action : Action) :
    after (actions ++ [action]) = act (after actions) action := by
  rw [after, List.foldl_append]
  rfl

theorem blankUntilConfigured (actions : List Action) :
    (after actions).configured = false → after actions = {} := by
  induction actions using List.reverseRecOn with
  | nil => exact fun _ => rfl
  | append_singleton actions action ih =>
    rw [afterNext]
    cases action with
    | call env request =>
      intro unconfigured
      have grown := callGrown env request (after actions)
      have before : (after actions).configured = false := grown.configured.symm.trans unconfigured
      exact (idleCall before env request).trans (ih before)
    | configure trouble instruments =>
      intro unconfigured
      rw [act] at unconfigured ⊢
      split at unconfigured
      · rename_i result engine ran
        by_cases ok : result = .ok
        · subst ok
          obtain ⟨_, _, installed⟩ := configureInstalls ran
          have configured := installed.configured
          rw [unconfigured] at configured
          contradiction
        · have same := configureFails ran ok
          rw [same] at unconfigured ⊢
          exact ih unconfigured
      · rename_i undefined
        exact absurd undefined (configureDefined trouble instruments _)

theorem actConfigure (actions : List Action) (trouble : Nat → Option Failure)
    (instruments : Option (List InstrumentConfig)) :
    act (after actions) (.configure trouble instruments) = after actions ∨
      ∃ list, after actions = {} ∧
        Installed {} list (act (after actions) (.configure trouble instruments)) := by
  rw [act]
  split
  · rename_i result engine ran
    by_cases ok : result = .ok
    · subst ok
      obtain ⟨list, _, installed⟩ := configureInstalls ran
      have blank := blankUntilConfigured actions installed.was
      rw [blank] at installed ⊢
      exact .inr ⟨list, rfl, installed⟩
    · exact .inl (configureFails ran ok)
  · exact .inl rfl

structure Kept (I : Venue → Prop) : Prop where
  blank : I {}
  opened : ∀ instruments, I (Venue.opened instruments)
  moments : ∀ venue request, venue.Proper → I venue →
    ∀ moment ∈ (Venue.perform wrappedFill request venue).1, I moment.venue
  result : ∀ venue request, venue.Proper → I venue → I (Venue.perform wrappedFill request venue).2

section Reaching
variable {I : Venue → Prop}

theorem keptOutcome (kept : Kept I) {venue venue' : Venue} {env : Env} {request : Request}
    {session : Session} (proper : venue.Proper) (holds : I venue)
    (outcome : Outcome env request venue session venue') : I venue' := by
  cases outcome with
  | completed _ _ => exact kept.result venue request proper holds
  | interrupted n moment _ here _ _ =>
    exact kept.moments venue request proper holds moment (List.mem_of_getElem? here)
  | starved _ _ _ => exact holds

theorem reached (kept : Kept I) (actions : List Action) :
    Roomy (after actions) → ∃ venue, Sim (after actions) venue ∧ I venue := by
  induction actions using List.reverseRecOn with
  | nil => exact fun _ => ⟨{}, unconfiguredSim, kept.blank⟩
  | append_singleton actions action ih =>
    rw [afterNext]
    intro roomy
    cases action with
    | call env request =>
      have before := roomyBefore (callGrown env request (after actions)) roomy
      obtain ⟨venue, sim, holds⟩ := ih before
      obtain ⟨venue', outcome⟩ := callOutcome sim before.slots env request
      exact ⟨venue', outcomeSim outcome, keptOutcome kept (simProper sim) holds outcome⟩
    | configure trouble instruments =>
      rcases actConfigure actions trouble instruments with same | ⟨list, blank, installed⟩
      · rw [same] at roomy ⊢
        exact ih roomy
      · exact ⟨Venue.opened list, openedSim installed rfl roomy.levels, kept.opened list⟩

theorem reachedSeen (kept : Kept I) {actions : List Action} (roomy : Roomy (after actions))
    (env : Env) (request : Request) : ∀ callback ∈ (call env request (after actions)).log, ∃ venue,
      Sim callback.seen venue ∧ I venue := by
  intro callback member
  obtain ⟨venue, sim, holds⟩ := reached kept actions roomy
  obtain ⟨_, outcome⟩ := callOutcome sim roomy.slots env request
  obtain ⟨moment, inMoments, follows⟩ := outcomeSeen outcome callback member
  exact ⟨moment.venue, follows.sim,
    kept.moments venue request (simProper sim) holds moment inMoments⟩

theorem keptTrivial : Kept (fun _ => True) :=
  ⟨trivial, fun _ => trivial, fun _ _ _ _ _ _ => trivial, fun _ _ _ _ => trivial⟩

end Reaching
end Engine
end Xmatch
