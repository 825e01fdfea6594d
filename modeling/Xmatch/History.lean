import Xmatch.Runs

/-! The history of a run: every event, with the request it answers. -/
namespace Xmatch

abbrev Entry := Request × Event

def Venue.entries (request : Request) (moments : List Moment) : List Entry :=
  moments.map (fun moment => (request, moment.event))

namespace Engine

def Action.Returns : Action → Prop
  | .configure _ _ => True
  | .call env _ => env.Quiet

def entriesOf (engine : Engine) : Action → List Entry
  | .configure _ _ => []
  | .call env request => (call env request engine).events.map (request, ·)

def historyFrom : List Action → Engine → List Entry
  | [], _ => []
  | action :: rest, engine => engine.entriesOf action ++ historyFrom rest (act engine action)

def history (actions : List Action) : List Entry := historyFrom actions {}

theorem historyFromNext (actions : List Action) (action : Action) : ∀ engine : Engine,
    historyFrom (actions ++ [action]) engine =
      historyFrom actions engine ++ (actions.foldl act engine).entriesOf action := by
  induction actions with
  | nil => exact fun engine => List.append_nil _
  | cons first rest ih =>
    intro engine
    simp only [List.cons_append, historyFrom, ih, List.foldl_cons, List.append_assoc]

theorem historyNext (actions : List Action) (action : Action) :
    history (actions ++ [action]) = history actions ++ (after actions).entriesOf action :=
  historyFromNext actions action {}

def journalFrom : List Action → Engine → List (List Entry)
  | [], _ => []
  | action :: rest, engine => engine.entriesOf action :: journalFrom rest (act engine action)

def journal (actions : List Action) : List (List Entry) := journalFrom actions {}

theorem journalFromNext (actions : List Action) (action : Action) : ∀ engine : Engine,
    journalFrom (actions ++ [action]) engine =
      journalFrom actions engine ++ [(actions.foldl act engine).entriesOf action] := by
  induction actions with
  | nil => exact fun engine => rfl
  | cons first rest ih =>
    intro engine
    simp only [List.cons_append, journalFrom, ih, List.foldl_cons]

theorem journalNext (actions : List Action) (action : Action) :
    journal (actions ++ [action]) = journal actions ++ [(after actions).entriesOf action] :=
  journalFromNext actions action {}

theorem journalFlatten (actions : List Action) : history actions = (journal actions).flatten := by
  induction actions using List.reverseRecOn with
  | nil => rfl
  | append_singleton actions action ih =>
    rw [historyNext, journalNext, ih, List.flatten_append, List.flatten_singleton]

/- An invariant of the venue and of what each call so far has reported, after every request. -/
structure Journaled (I : List (List Entry) → Venue → Prop) : Prop where
  blank : I [] {}
  silent : ∀ journal venue, I journal venue → I (journal ++ [[]]) venue
  opened : ∀ journal venue instruments, (∀ id, id ∉ venue.spent) → I journal venue →
    I (journal ++ [[]]) (Venue.opened instruments)
  step : ∀ journal venue request, venue.Proper → I journal venue →
    I (journal ++ [Venue.entries request (Venue.perform wrappedFill request venue).1])
    (Venue.perform wrappedFill request venue).2

structure Traced (I : List Entry → Venue → Prop) : Prop where
  blank : I [] {}
  opened : ∀ history venue instruments, (∀ id, id ∉ venue.spent) → I history venue →
    I history (Venue.opened instruments)
  step : ∀ history venue request, venue.Proper → I history venue →
    I (history ++ Venue.entries request (Venue.perform wrappedFill request venue).1)
    (Venue.perform wrappedFill request venue).2

section Tracing
variable {engine : Engine} {venue : Venue} {env : Env} {request : Request}

theorem followsEntries (request : Request) {callbacks : List Callback} {moments : List Moment}
    (follows : List.Forall₂ Follows callbacks moments) :
    (callbacks.map (·.event)).map (request, ·) = Venue.entries request moments := by
  rw [followsEvents follows, List.map_map]
  rfl

theorem quietStep (sim : Sim engine venue) (room : engine.pool.size < kInvalidSlot.toNat)
    (quiet : env.Quiet) (request : Request) :
    (engine.entriesOf (.call env request) =
      Venue.entries request (Venue.perform wrappedFill request venue).1 ∧
        Sim (call env request engine).engine (Venue.perform wrappedFill request venue).2) ∨
      (engine.entriesOf (.call env request) = [] ∧ Sim (call env request engine).engine venue) := by
  obtain ⟨venue', outcome⟩ := callOutcome sim room env request
  have sim' := outcomeSim outcome
  rcases quietOutcome quiet outcome with ⟨follows, rfl⟩ | ⟨_, silent, rfl⟩
  · exact .inl ⟨followsEntries request follows, sim'⟩
  · refine .inr ⟨?_, sim'⟩
    rw [entriesOf, Session.events, silent]
    rfl

theorem blankSpent (sim : Sim {} venue) (id : OrderId) : id ∉ venue.spent := by
  obtain ⟨_, _, _, view⟩ := sim
  intro spent
  obtain ⟨slot, found⟩ := (view.spent id).mp spent
  rw [show (({} : Engine).orderIndex.find id) = none from FlatHashMap.emptyValid.2 id] at found
  contradiction

theorem journaled {I : List (List Entry) → Venue → Prop} (kept : Journaled I)
    (actions : List Action) :
    (∀ action ∈ actions, action.Returns) → Roomy (after actions) → ∃ venue,
      Sim (after actions) venue ∧ I (journal actions) venue := by
  induction actions using List.reverseRecOn with
  | nil => exact fun _ _ => ⟨{}, unconfiguredSim, kept.blank⟩
  | append_singleton actions action ih =>
    intro returns
    have earlier : ∀ action ∈ actions, action.Returns :=
      fun action member => returns action (List.mem_append_left _ member)
    have last := returns action (List.mem_append_right _ List.mem_cons_self)
    rw [afterNext, journalNext]
    intro roomy
    cases action with
    | call env request =>
      have before := roomyBefore (callGrown env request (after actions)) roomy
      obtain ⟨venue, sim, holds⟩ := ih earlier before
      rcases quietStep sim before.slots last request with ⟨entries, sim'⟩ | ⟨entries, sim'⟩
      · rw [entries]
        exact ⟨_, sim', kept.step _ _ request (simProper sim) holds⟩
      · rw [entries]
        exact ⟨venue, sim', kept.silent _ _ holds⟩
    | configure trouble instruments =>
      rw [entriesOf]
      rcases actConfigure actions trouble instruments with same | ⟨list, blank, installed⟩
      · rw [same] at roomy ⊢
        obtain ⟨venue, sim, holds⟩ := ih earlier roomy
        exact ⟨venue, sim, kept.silent _ _ holds⟩
      · obtain ⟨venue, sim, holds⟩ := ih earlier (by
          rw [blank]
          exact ⟨by decide, fun b inside => absurd inside (Nat.not_lt_zero b)⟩)
        rw [blank] at sim
        exact ⟨Venue.opened list, openedSim installed rfl roomy.levels,
          kept.opened _ _ list (blankSpent sim) holds⟩

theorem tracedJournaled {I : List Entry → Venue → Prop} (kept : Traced I) :
    Journaled (fun journal => I journal.flatten) where
  blank := kept.blank
  silent journal venue holds := by
    rwa [List.flatten_append, List.flatten_singleton, List.append_nil]
  opened journal venue instruments unspent holds := by
    rw [List.flatten_append, List.flatten_singleton, List.append_nil]
    exact kept.opened _ _ instruments unspent holds
  step journal venue request proper holds := by
    rw [List.flatten_append, List.flatten_singleton]
    exact kept.step _ _ request proper holds

theorem traced {I : List Entry → Venue → Prop} (kept : Traced I) (actions : List Action)
    (returns : ∀ action ∈ actions, action.Returns) (roomy : Roomy (after actions)) :
    ∃ venue, Sim (after actions) venue ∧ I (history actions) venue := by
  rw [journalFlatten]
  exact journaled (tracedJournaled kept) actions returns roomy

end Tracing
end Engine
end Xmatch
