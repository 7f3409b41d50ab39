import Mathlib.Order.Bounds.Defs
import Mathlib.Order.Lattice
import Redcli.Support.TransitionSystem

/-!
# Shared Maximum

A variable that many processes raise. A process loads the variable and, as long as it has seen a
smaller value than its own, tries to exchange what it has seen for its value. A compare-exchange
fails if the variable has changed, may fail although it has not, and loads the variable again when
it fails.

## Main results

* `step_cases`: what a step can do;
* `inv_step`: every step keeps the invariant;
* `le_of_step`: no step lowers the variable;
* `le_of_idle`: a request has been met when its process is idle again;
* `isGreatest_of_idle`: without processes that are busy, the variable is the greatest of its
  initial value and of all values that were requested.
-/

namespace SharedMaximum

/-- Where a process stands: between two requests, in front of the load of its loop, or in front of
a compare-exchange that expects the value `seen`. -/
inductive Phase (α : Type*) where
  | idle
  | load (v : α)
  | exchange (v seen : α)

/-- The variable, and the processes. -/
structure State (α : Type*) where
  value : α
  phases : List (Phase α)

/-- What can happen next: a process joins, a process that is idle wants the variable to be at least
`v`, or it goes on with its loop. A compare-exchange without `luck` fails. -/
inductive Event (α : Type*) where
  | join
  | request (i : ℕ) (v : α)
  | load (i : ℕ)
  | exchange (i : ℕ) (luck : Bool)

variable {α : Type*}

/-- The value that a process raises the variable to. -/
def Phase.target? : Phase α → Option α
  | .idle => none
  | .load v => some v
  | .exchange v _ => some v

/-- Process `i` goes on to another phase. -/
def State.goTo (s : State α) (i : ℕ) (p : Phase α) : State α :=
  { s with phases := s.phases.set i p }

/-- The phases of the processes after one has gone on. -/
private theorem getElem?_goTo {s : State α} {i j : ℕ} {p q : Phase α}
    (h : (s.goTo i q).phases[j]? = some p) :
    (j = i ∧ p = q) ∨ (j ≠ i ∧ s.phases[j]? = some p) := by
  rw [State.goTo, List.getElem?_set] at h
  split_ifs at h with hji
  · exact .inl ⟨hji.symm, (Option.some.inj h).symm⟩
  · exact .inr ⟨fun heq => hji heq.symm, h⟩

/-- The values that a step requests, with the process. -/
def requests (_ : State α) : Event α → List (ℕ × α)
  | .request i v => [(i, v)]
  | _ => []

variable [LinearOrder α]

/-- The phase behind a load. -/
def loaded (v seen : α) : Phase α := if seen < v then .exchange v seen else .idle

/-- The steps of the system. -/
def step (s : State α) : Event α → Option (State α)
  | .join => some { s with phases := s.phases ++ [.idle] }
  | .request i v =>
      match s.phases[i]? with
      | some .idle => some (s.goTo i (.load v))
      | _ => none
  | .load i =>
      match s.phases[i]? with
      | some (.load v) => some (s.goTo i (loaded v s.value))
      | _ => none
  | .exchange i luck =>
      match s.phases[i]? with
      | some (.exchange v seen) =>
          if luck ∧ s.value = seen then some { s.goTo i .idle with value := v }
          else some (s.goTo i (loaded v s.value))
      | _ => none

/-- The invariant, for the initial value and the values that were requested. -/
structure Inv (init : α) (s : State α) (reqs : List (ℕ × α)) : Prop where
  init_le : init ≤ s.value
  attained : s.value = init ∨ ∃ i, (i, s.value) ∈ reqs
  /-- A process only raises the variable to a value that it was asked for. -/
  requested : ∀ (i : ℕ) (p : Phase α) (v : α), s.phases[i]? = some p → p.target? = some v →
    (i, v) ∈ reqs
  /-- A compare-exchange that succeeds raises the variable. -/
  seen_lt : ∀ (i : ℕ) (v seen : α), s.phases[i]? = some (.exchange v seen) → seen < v
  /-- A request has been met, or its process is busy with it. -/
  met : ∀ (i : ℕ) (v : α), (i, v) ∈ reqs →
    v ≤ s.value ∨ ∃ p, s.phases[i]? = some p ∧ p.target? = some v

variable {init : α} {s s' : State α} {reqs : List (ℕ × α)} {e : Event α} {i : ℕ} {p : Phase α}
  {v : α}

/-- What a step can do: a process joins or makes a request, or it loads the variable, or it
exchanges the value of the variable for its own. -/
theorem step_cases (hstep : step s e = some s') :
    (requests s e = [] ∧ s' = { s with phases := s.phases ++ [.idle] }) ∨
      (∃ i v, requests s e = [(i, v)] ∧ s.phases[i]? = some .idle ∧ s' = s.goTo i (.load v)) ∨
      (requests s e = [] ∧ ∃ i p v, s.phases[i]? = some p ∧ p.target? = some v ∧
        s' = s.goTo i (loaded v s.value)) ∨
      (requests s e = [] ∧ ∃ i v, s.phases[i]? = some (.exchange v s.value) ∧
        s' = { s.goTo i .idle with value := v }) := by
  cases e with
  | join => exact .inl ⟨rfl, (Option.some.inj hstep).symm⟩
  | request i v =>
      simp only [step] at hstep
      split at hstep
      · next hidle => exact .inr (.inl ⟨i, v, rfl, hidle, (Option.some.inj hstep).symm⟩)
      · cases hstep
  | load i =>
      simp only [step] at hstep
      split at hstep
      · next v hload =>
        exact .inr (.inr (.inl ⟨rfl, i, _, v, hload, rfl, (Option.some.inj hstep).symm⟩))
      · cases hstep
  | exchange i luck =>
      simp only [step] at hstep
      split at hstep
      · next v seen hexchange =>
        split_ifs at hstep with hsame
        · obtain ⟨-, rfl⟩ := hsame
          exact .inr (.inr (.inr ⟨rfl, i, v, hexchange, (Option.some.inj hstep).symm⟩))
        · exact .inr (.inr (.inl ⟨rfl, i, _, v, hexchange, rfl, (Option.some.inj hstep).symm⟩))
      · cases hstep

/-- The phase behind a load: the process has a larger value and goes on, or it is idle. -/
theorem loaded_cases (v seen : α) :
    (seen < v ∧ loaded v seen = .exchange v seen) ∨ (v ≤ seen ∧ loaded v seen = .idle) := by
  unfold loaded
  split_ifs with hlt
  · exact .inl ⟨hlt, rfl⟩
  · exact .inr ⟨not_lt.mp hlt, rfl⟩

/-- A process goes on with its request, or it has met it. -/
theorem Inv.goTo (h : Inv init s reqs) (hi : s.phases[i]? = some p) (hp : p.target? = some v)
    {value : α} {q : Phase α} (hle : s.value ≤ value) (hvalue : value = s.value ∨ value = v)
    (hq : v ≤ value ∧ q = .idle ∨ ∃ seen < v, q = .exchange v seen) :
    Inv init { s.goTo i q with value := value } reqs := by
  have hmem := h.requested i p v hi hp
  constructor
  case init_le => exact h.init_le.trans hle
  case attained =>
    rcases hvalue with rfl | rfl
    · exact h.attained
    · exact .inr ⟨i, hmem⟩
  case requested =>
    intro j r w hj hr
    rcases getElem?_goTo hj with ⟨rfl, rfl⟩ | ⟨-, hj⟩
    · rcases hq with ⟨-, rfl⟩ | ⟨seen, -, rfl⟩
      · cases hr
      · obtain rfl := Option.some.inj hr
        exact hmem
    · exact h.requested j r w hj hr
  case seen_lt =>
    intro j w seen hj
    rcases getElem?_goTo hj with ⟨rfl, rfl⟩ | ⟨-, hj⟩
    · obtain ⟨-, hidle⟩ | ⟨seen', hlt, heq⟩ := hq
      · cases hidle
      · cases heq
        exact hlt
    · exact h.seen_lt j w seen hj
  case met =>
    intro j w hw
    rcases h.met j w hw with hdone | ⟨r, hj, hr⟩
    · exact .inl (hdone.trans hle)
    · by_cases hji : j = i
      · -- the request of the process itself
        subst hji
        obtain rfl := Option.some.inj (hi.symm.trans hj)
        obtain rfl := Option.some.inj (hp.symm.trans hr)
        rcases hq with ⟨hdone, -⟩ | ⟨seen, -, rfl⟩
        · exact .inl hdone
        · have hlt := (List.getElem?_eq_some_iff.mp hi).1
          exact .inr ⟨.exchange v seen, by simp [State.goTo, hlt], rfl⟩
      · refine .inr ⟨r, ?_, hr⟩
        rw [← hj]
        exact List.getElem?_set_ne fun heq => hji heq.symm

/-- A process joins, and is idle. -/
theorem Inv.join (h : Inv init s reqs) :
    Inv init { s with phases := s.phases ++ [.idle] } reqs := by
  -- a process that is busy was there before
  have hold : ∀ (j : ℕ) (p : Phase α), (s.phases ++ [.idle])[j]? = some p → p ≠ .idle →
      s.phases[j]? = some p := by
    intro j p hj hp
    rw [List.getElem?_append] at hj
    split_ifs at hj
    · exact hj
    · exact absurd (List.mem_singleton.mp (List.mem_of_getElem? hj)) hp
  constructor
  case init_le => exact h.init_le
  case attained => exact h.attained
  case requested =>
    intro j p w hj hp
    exact h.requested j p w (hold j p hj (by rintro rfl; cases hp)) hp
  case seen_lt =>
    intro j w seen hj
    exact h.seen_lt j w seen (hold j _ hj (by simp))
  case met =>
    intro j w hw
    refine (h.met j w hw).imp_right fun ⟨p, hj, hp⟩ => ⟨p, ?_, hp⟩
    rw [← hj]
    exact List.getElem?_append_left (List.getElem?_eq_some_iff.mp hj).1

/-- A process that was idle makes a request. -/
theorem Inv.request (h : Inv init s reqs) (hidle : s.phases[i]? = some .idle) :
    Inv init (s.goTo i (.load v)) (reqs ++ [(i, v)]) := by
  have hlt := (List.getElem?_eq_some_iff.mp hidle).1
  constructor
  case init_le => exact h.init_le
  case attained =>
    exact h.attained.imp_right fun ⟨j, hj⟩ => ⟨j, List.mem_append_left _ hj⟩
  case requested =>
    intro j p w hj hp
    rcases getElem?_goTo hj with ⟨rfl, rfl⟩ | ⟨-, hj⟩
    · obtain rfl := Option.some.inj hp
      exact List.mem_append_right _ (List.mem_singleton_self _)
    · exact List.mem_append_left _ (h.requested j p w hj hp)
  case seen_lt =>
    intro j w seen hj
    rcases getElem?_goTo hj with ⟨-, heq⟩ | ⟨-, hj⟩
    · cases heq
    · exact h.seen_lt j w seen hj
  case met =>
    intro j w hw
    rcases List.mem_append.mp hw with hw | hw
    · refine (h.met j w hw).imp_right fun ⟨p, hj, hp⟩ => ⟨p, ?_, hp⟩
      have hne : i ≠ j := by
        rintro rfl
        rw [hidle] at hj
        obtain rfl := Option.some.inj hj
        cases hp
      rw [← hj]
      exact List.getElem?_set_ne hne
    · cases List.mem_singleton.mp hw
      exact .inr ⟨.load v, by simp [State.goTo, hlt], rfl⟩

/-- Every step keeps the invariant. -/
theorem inv_step (s : State α) (reqs : List (ℕ × α)) (e : Event α) (s' : State α)
    (h : Inv init s reqs) (hstep : step s e = some s') :
    Inv init s' (reqs ++ requests s e) := by
  rcases step_cases hstep with ⟨hreq, rfl⟩ | ⟨i, v, hreq, hidle, rfl⟩ |
    ⟨hreq, i, p, v, hi, hp, rfl⟩ | ⟨hreq, i, v, hi, rfl⟩
  · rw [hreq, List.append_nil]
    exact h.join
  · rw [hreq]
    exact h.request hidle
  · -- a load
    rw [hreq, List.append_nil]
    refine h.goTo hi hp le_rfl (.inl rfl) ?_
    rcases loaded_cases v s.value with ⟨hlt, heq⟩ | ⟨hle, heq⟩
    · exact .inr ⟨s.value, hlt, heq⟩
    · exact .inl ⟨hle, heq⟩
  · -- a compare-exchange that succeeds
    rw [hreq, List.append_nil]
    exact h.goTo hi rfl (h.seen_lt i v s.value hi).le (.inr rfl) (.inl ⟨le_rfl, rfl⟩)

/-- The invariant at the start. -/
theorem inv_init (hidle : ∀ p ∈ s.phases, p = .idle) : Inv s.value s [] where
  init_le := le_rfl
  attained := .inl rfl
  requested i p v hi hp := by
    rw [hidle p (List.mem_of_getElem? hi)] at hp
    cases hp
  seen_lt i v seen hi := by cases hidle _ (List.mem_of_getElem? hi)
  met i v h := absurd h List.not_mem_nil

/-- The invariant holds in every state of every run. -/
theorem inv_of_run {events : List (Event α)} (hidle : ∀ p ∈ s.phases, p = .idle)
    (hrun : TransitionSystem.run step s events = some s') :
    Inv s.value s' (TransitionSystem.trace step requests s events) :=
  TransitionSystem.run_invariant_trace inv_step (inv_init hidle) hrun

/-! ## What the invariant says -/

/-- No step lowers the variable. -/
theorem Inv.le_of_step (h : Inv init s reqs) (hstep : step s e = some s') :
    s.value ≤ s'.value := by
  rcases step_cases hstep with ⟨-, rfl⟩ | ⟨i, v, -, -, rfl⟩ | ⟨-, i, p, v, -, -, rfl⟩ |
    ⟨-, i, v, hi, rfl⟩
  · exact le_rfl
  · exact le_rfl
  · exact le_rfl
  · exact (h.seen_lt i v s.value hi).le

/-- No run lowers the variable. -/
theorem Inv.le_of_run (h : Inv init s reqs) {events : List (Event α)}
    (hrun : TransitionSystem.run step s events = some s') : s.value ≤ s'.value := by
  induction events generalizing s reqs with
  | nil =>
      obtain rfl := Option.some.inj hrun
      exact le_rfl
  | cons e events ih =>
      rw [TransitionSystem.run_cons, Option.bind_eq_some_iff] at hrun
      obtain ⟨s₁, hfirst, hrest⟩ := hrun
      exact (h.le_of_step hfirst).trans (ih (inv_step s reqs e s₁ h hfirst) hrest)

/-- A request has been met when its process is idle again. -/
theorem Inv.le_of_idle (h : Inv init s reqs) (hi : s.phases[i]? = some .idle)
    (hv : (i, v) ∈ reqs) : v ≤ s.value := by
  rcases h.met i v hv with hle | ⟨p, hp, htarget⟩
  · exact hle
  · obtain rfl := Option.some.inj (hi.symm.trans hp)
    cases htarget

/-- When all processes are idle, the variable is the greatest of its initial value and of all
values that were requested. -/
theorem Inv.isGreatest_of_idle (h : Inv init s reqs) (hidle : ∀ p ∈ s.phases, p = .idle) :
    IsGreatest {v | v = init ∨ ∃ i, (i, v) ∈ reqs} s.value := by
  refine ⟨h.attained, ?_⟩
  rintro v (rfl | ⟨i, hv⟩)
  · exact h.init_le
  · rcases h.met i v hv with hle | ⟨p, hp, htarget⟩
    · exact hle
    · rw [hidle p (List.mem_of_getElem? hp)] at htarget
      cases htarget

end SharedMaximum
