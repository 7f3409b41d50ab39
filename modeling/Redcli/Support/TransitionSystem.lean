import Mathlib.Tactic.Common
import Mathlib.Tactic.TypeStar

/-!
# Transition Systems

A system whose steps are a partial function of its state and of an event: the event says who
moves and how every choice that the system leaves open is made. A run is a list of events. The
steps may put something out, and what a run puts out is its trace.

## Main results

* `run_invariant`: what every step preserves holds at the end of every run;
* `run_invariant_trace`: the same for what relates the state to the trace;
* `run_simulation`: if each step is matched by some steps of another system, then each trace is a
  trace of the other system.
-/

namespace TransitionSystem

variable {S E O : Type*} {step : S → E → Option S}

/-- The state after a list of events; `none` if one of them was not possible. -/
def run (step : S → E → Option S) (s : S) (events : List E) : Option S := events.foldlM step s

@[simp]
theorem run_nil (s : S) : run step s [] = some s := rfl

@[simp]
theorem run_cons (s : S) (e : E) (events : List E) :
    run step s (e :: events) = (step s e).bind fun s' => run step s' events := rfl

/-- What every step preserves holds at the end of every run. -/
theorem run_invariant {I : S → Prop} (hstep : ∀ s e s', I s → step s e = some s' → I s')
    {s s' : S} {events : List E} (hs : I s) (hrun : run step s events = some s') : I s' := by
  induction events generalizing s with
  | nil =>
      obtain rfl := Option.some.inj hrun
      exact hs
  | cons e events ih =>
      rw [run_cons, Option.bind_eq_some_iff] at hrun
      obtain ⟨s₁, hfirst, hrest⟩ := hrun
      exact ih (hstep s e s₁ hs hfirst) hrest

/-- What the steps of the events of a run preserve holds at its end. -/
theorem run_invariant_mem {I : S → Prop} {s s' : S} {events : List E}
    (hstep : ∀ e ∈ events, ∀ s s', I s → step s e = some s' → I s') (hs : I s)
    (hrun : run step s events = some s') : I s' := by
  induction events generalizing s with
  | nil =>
      obtain rfl := Option.some.inj hrun
      exact hs
  | cons e events ih =>
      rw [run_cons, Option.bind_eq_some_iff] at hrun
      obtain ⟨s₁, hfirst, hrest⟩ := hrun
      exact ih (fun e' he' => hstep e' (List.mem_cons_of_mem e he'))
        (hstep e List.mem_cons_self s s₁ hs hfirst) hrest

/-- A run goes on with another list of events. -/
theorem run_append {s : S} {events events' : List E} :
    run step s (events ++ events') = (run step s events).bind fun s' => run step s' events' :=
  List.foldlM_append

/-! ## Traces -/

/-- What the steps of a run put out, up to the first event that is not possible. -/
def trace (step : S → E → Option S) (out : S → E → List O) : S → List E → List O
  | _, [] => []
  | s, e :: events => out s e ++ (step s e).elim [] fun s' => trace step out s' events

variable {out : S → E → List O}

/-- A run that goes on puts out more. -/
theorem trace_append {s s' : S} {events events' : List E}
    (hrun : run step s events = some s') :
    trace step out s (events ++ events') =
      trace step out s events ++ trace step out s' events' := by
  induction events generalizing s with
  | nil =>
      obtain rfl := Option.some.inj hrun
      rfl
  | cons e events ih =>
      rw [run_cons, Option.bind_eq_some_iff] at hrun
      obtain ⟨s₁, hfirst, hrest⟩ := hrun
      simp only [List.cons_append, trace, hfirst, Option.elim_some, ih hrest, List.append_assoc]

/-- What every step preserves, with what it puts out, holds at the end of every run. -/
theorem run_invariant_trace {I : S → List O → Prop}
    (hstep : ∀ s os e s', I s os → step s e = some s' → I s' (os ++ out s e))
    {s s' : S} {events : List E} (hs : I s []) (hrun : run step s events = some s') :
    I s' (trace step out s events) := by
  -- in the middle of a run something has been put out
  suffices hmiddle : ∀ os s, I s os → run step s events = some s' →
      I s' (os ++ trace step out s events) from hmiddle [] s hs hrun
  clear hs hrun
  induction events with
  | nil =>
      intro os s hs hrun
      obtain rfl := Option.some.inj hrun
      rwa [trace, List.append_nil]
  | cons e events ih =>
      intro os s hs hrun
      rw [run_cons, Option.bind_eq_some_iff] at hrun
      obtain ⟨s₁, hfirst, hrest⟩ := hrun
      rw [trace, hfirst, Option.elim_some, ← List.append_assoc]
      exact ih _ s₁ (hstep s os e s₁ hs hfirst) hrest

/-- Each step of a run is matched by some steps of another system, which put out the same: then so
is the run. -/
theorem run_simulation {T F : Type*} {step' : T → F → Option T} {out' : T → F → List O}
    {R : S → T → Prop} {events : List E}
    (hstep : ∀ e ∈ events, ∀ s t s', R s t → step s e = some s' → ∃ events' t',
      run step' t events' = some t' ∧ trace step' out' t events' = out s e ∧ R s' t')
    {s s' : S} {t : T} (hR : R s t) (hrun : run step s events = some s') :
    ∃ events' t', run step' t events' = some t' ∧
      trace step' out' t events' = trace step out s events ∧ R s' t' := by
  induction events generalizing s t with
  | nil =>
      obtain rfl := Option.some.inj hrun
      exact ⟨[], t, rfl, rfl, hR⟩
  | cons e events ih =>
      rw [run_cons, Option.bind_eq_some_iff] at hrun
      obtain ⟨s₁, hfirst, hrest⟩ := hrun
      -- the steps that match the first one, and those that match the others
      obtain ⟨events₁, t₁, hrun₁, htrace₁, hR₁⟩ :=
        hstep e List.mem_cons_self s t s₁ hR hfirst
      obtain ⟨events₂, t₂, hrun₂, htrace₂, hR₂⟩ :=
        ih (fun e' he' => hstep e' (List.mem_cons_of_mem e he')) hR₁ hrest
      refine ⟨events₁ ++ events₂, t₂, ?_, ?_, hR₂⟩
      · rw [run_append, hrun₁, Option.bind_some, hrun₂]
      · rw [trace_append hrun₁, htrace₁, htrace₂, trace, hfirst, Option.elim_some]

end TransitionSystem
