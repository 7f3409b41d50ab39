import Mathlib.Algebra.Order.BigOperators.Group.List
import Mathlib.Algebra.Order.Ring.Nat
import Mathlib.Data.List.Perm.Basic
import Mathlib.Data.List.Nodup
import Mathlib.Data.List.Range
import Mathlib.Tactic.Common

/-!
# Worker Pools over a Shared Dispenser

`n` workers share one dispenser of job indices and one piece of shared state. A worker
at its loop head fetches an index from the dispenser; if it gets one it performs the
actions of that job one by one and returns to the loop head, otherwise it stops. Any
interleaving of the atomic actions and fetches is allowed, and an action may fail, which
takes the whole pool down.

A schedule is a list of worker numbers, the order in which the workers take their atomic
steps. `execute` runs a schedule and then joins the workers one after another.

## Main results

* `Inv.step`: one atomic step of any worker preserves the pool invariant `Inv`, in which
  the pending work, run in any order, leads to one fixed result;
* `execute_shared`: if the actions of different jobs commute and the dispenser serves
  `0, …, total - 1` and then nothing, then every schedule ends with the result of running
  the jobs in order.
-/

namespace WorkPool

variable {Q S : Type}

/-- An atomic action on the shared state; `none` when it takes the pool down. -/
abbrev Action (S : Type) := S → Option S

/-- Perform a list of actions from first to last. -/
def runActions (actions : List (Action S)) (s : S) : Option S :=
  actions.foldlM (fun s a => a s) s

@[simp]
theorem runActions_nil : runActions ([] : List (Action S)) = some := rfl

@[simp]
theorem runActions_cons (a : Action S) (actions : List (Action S)) :
    runActions (a :: actions) = fun s => (a s).bind (runActions actions) := rfl

/-- Perform the jobs `0, …, total - 1` one after another. -/
def runJobs (jobs : ℕ → List (Action S)) (total : ℕ) (s : S) : Option S :=
  (List.range total).foldlM (fun s i => runActions (jobs i) s) s

theorem runJobs_succ (jobs : ℕ → List (Action S)) (total : ℕ) (s : S) :
    runJobs jobs (total + 1) s = (runJobs jobs total s).bind (runActions (jobs total)) := by
  simp [runJobs, List.range_succ, List.foldlM_append]

/-- Jobs without actions change nothing. -/
theorem runJobs_nil (total : ℕ) (s : S) : runJobs (fun _ => []) total s = some s := by
  induction total with
  | zero => rfl
  | succ total ih => rw [runJobs_succ, ih, Option.bind_some, runActions_nil]

/-- An invariant that every job establishes for its successor holds at the end. -/
theorem runJobs_invariant {jobs : ℕ → List (Action S)} {total : ℕ} (Inv : ℕ → S → Prop)
    (hstep : ∀ i < total, ∀ s, Inv i s → ∃ s', runActions (jobs i) s = some s' ∧ Inv (i + 1) s')
    {s : S} (h₀ : Inv 0 s) : ∃ s', runJobs jobs total s = some s' ∧ Inv total s' := by
  induction total with
  | zero => exact ⟨s, rfl, h₀⟩
  | succ total ih =>
      obtain ⟨s₁, hrun, hinv⟩ := ih fun i hi => hstep i (Nat.lt_succ_of_lt hi)
      obtain ⟨s₂, hjob, hinv'⟩ := hstep total (Nat.lt_succ_self total) s₁ hinv
      exact ⟨s₂, by rw [runJobs_succ, hrun, Option.bind_some, hjob], hinv'⟩

/-- One job that always fails takes the run down. -/
theorem runJobs_eq_none {jobs : ℕ → List (Action S)} {total i : ℕ} (hi : i < total)
    (hfail : ∀ s, runActions (jobs i) s = none) (s : S) : runJobs jobs total s = none := by
  induction total with
  | zero => exact absurd hi (Nat.not_lt_zero i)
  | succ total ih =>
      rw [runJobs_succ]
      rcases Nat.lt_succ_iff_lt_or_eq.mp hi with hlt | rfl
      · rw [ih hlt, Option.bind_none]
      · cases runJobs jobs i s with
        | none => rfl
        | some s' => exact hfail s'

/-- Where a worker stands: at its loop head, inside a job with some actions left, or
after the fetch that returned nothing. -/
inductive Worker (S : Type) where
  | idle
  | busy (job : ℕ) (todo : List (Action S))
  | stopped

/-- Whether a worker has left its loop. -/
def Worker.isStopped : Worker S → Bool
  | .stopped => true
  | _ => false

/-- The state of a pool: the dispenser, the workers, the shared state (`none` once an
action has failed) and the history of fetches with the worker that made each. -/
structure State (Q S : Type) where
  dispenser : Q
  workers : List (Worker S)
  shared : Option S
  log : List (ℕ × Option ℕ)

/-- A pool of `n` workers that have not started. -/
def init (n : ℕ) (q : Q) (s : S) : State Q S :=
  { dispenser := q, workers := List.replicate n .idle, shared := some s, log := [] }

variable (pop : Q → Option ℕ × Q) (jobs : ℕ → List (Action S))

/-- The next atomic step of worker `w`. Stopped workers, and all workers of a failed
pool, do not move. -/
def step (w : ℕ) (st : State Q S) : State Q S :=
  match st.shared, st.workers[w]? with
  | some _, some .idle =>
      -- the loop head: one fetch, which is atomic, and the branch on its result
      let (job, q) := pop st.dispenser
      { st with
        dispenser := q
        workers := st.workers.set w (job.elim .stopped fun i => .busy i (jobs i))
        log := st.log ++ [(w, job)] }
  | some s, some (.busy i (a :: todo)) =>
      -- an action that fails leaves no shared state, and the pool stands still
      { st with workers := st.workers.set w (.busy i todo), shared := a s }
  | some _, some (.busy _ []) => { st with workers := st.workers.set w .idle }
  | _, _ => st

/-- The pool after the steps of a schedule. -/
def run (schedule : List ℕ) (st : State Q S) : State Q S :=
  schedule.foldl (fun st w => step pop jobs w st) st

/-- A bound on the number of steps that `n` workers take on `total` jobs. -/
def budget (n total : ℕ) : ℕ :=
  ((List.range total).map fun i => (jobs i).length + 2).sum + n

/-- Joining: worker `0` is run to its end, then worker `1`, and so on. -/
def joinSchedule (n fuel : ℕ) : List ℕ :=
  (List.range n).flatMap fun w => List.replicate fuel w

/-- Start `n` workers, let them interleave along `schedule`, then join them. -/
def execute (n total : ℕ) (schedule : List ℕ) (q : Q) (s : S) : State Q S :=
  run pop jobs (schedule ++ joinSchedule n (budget jobs n total)) (init n q s)

/-- The dispenser after `t` fetches. -/
def after (q : Q) (t : ℕ) : Q := (fun q => (pop q).2)^[t] q

/-- The dispenser serves `0, …, total - 1` and nothing else for at least `bound`
fetches. -/
def Serves (q : Q) (total bound : ℕ) : Prop :=
  ∀ t < bound, (pop (after pop q t)).1 = if t < total then some t else none

/-- Actions of different jobs commute. -/
def JobsCommute : Prop :=
  ∀ i j, i ≠ j → ∀ a ∈ jobs i, ∀ b ∈ jobs j, ∀ s, (a s).bind b = (b s).bind a

variable {pop jobs}

theorem after_succ (q : Q) (t : ℕ) : after pop q (t + 1) = (pop (after pop q t)).2 :=
  Function.iterate_succ_apply' _ _ _

/-! ## Commuting blocks of actions -/

/-- An action that commutes with each of a list of actions commutes with the list. -/
private theorem bind_runActions_comm {a : Action S} {todo : List (Action S)}
    (h : ∀ b ∈ todo, ∀ s, (a s).bind b = (b s).bind a) (s : S) :
    (a s).bind (runActions todo) = (runActions todo s).bind a := by
  induction todo generalizing s with
  | nil => simp
  | cons b todo ih =>
      have hb := h b List.mem_cons_self
      have ih' := fun s => ih (fun c hc => h c (List.mem_cons_of_mem b hc)) s
      -- the action moves past the first of the list, then past the others
      calc (a s).bind (runActions (b :: todo))
          = ((a s).bind b).bind (runActions todo) := by
            simp only [Option.bind_assoc, runActions_cons]
        _ = (b s).bind (fun s' => (a s').bind (runActions todo)) := by
            rw [hb s, Option.bind_assoc]
        _ = (runActions (b :: todo) s).bind a := by
            simp only [ih', runActions_cons, Option.bind_assoc]

/-- Two lists of actions commute if each action of the one commutes with each of the
other. -/
private theorem runActions_comm {todo todo' : List (Action S)}
    (h : ∀ a ∈ todo, ∀ b ∈ todo', ∀ s, (a s).bind b = (b s).bind a) (s : S) :
    (runActions todo s).bind (runActions todo') =
      (runActions todo' s).bind (runActions todo) := by
  have hcomm : ∀ a ∈ todo, ∀ s, (runActions todo' s).bind a = (a s).bind (runActions todo') :=
    fun a ha s => (bind_runActions_comm (h a ha) s).symm
  exact (bind_runActions_comm hcomm s).symm

/-- Jobs, or what is left of them, performed one after another on a state that may
already be lost. -/
def runPending (pending : List (ℕ × List (Action S))) (s : Option S) : Option S :=
  pending.foldl (fun s p => s.bind (runActions p.2)) s

@[simp]
theorem runPending_nil (s : Option S) : runPending [] s = s := rfl

@[simp]
theorem runPending_cons (p : ℕ × List (Action S)) (pending : List (ℕ × List (Action S)))
    (s : Option S) :
    runPending (p :: pending) s = runPending pending (s.bind (runActions p.2)) := rfl

theorem runPending_append (P P' : List (ℕ × List (Action S))) (s : Option S) :
    runPending (P ++ P') s = runPending P' (runPending P s) :=
  List.foldl_append

/-- The order in which parts of different jobs are performed does not matter. -/
theorem runPending_perm (hcomm : JobsCommute jobs) {P P' : List (ℕ × List (Action S))}
    (hperm : P.Perm P') (hnodup : (P.map Prod.fst).Nodup)
    (hsub : ∀ p ∈ P, p.2 ⊆ jobs p.1) (s : Option S) :
    runPending P s = runPending P' s := by
  -- a permutation is a series of swaps, and two entries that are swapped are of different jobs
  refine hperm.foldl_eq' (fun x hx y hy z => ?_) s
  by_cases hxy : x = y
  · rw [hxy]
  · have hne : x.1 ≠ y.1 := fun h => hxy (List.inj_on_of_nodup_map hnodup hx hy h)
    rw [Option.bind_assoc, Option.bind_assoc]
    congr 1
    funext s
    exact runActions_comm
      (fun a ha b hb => hcomm _ _ hne a (hsub x hx ha) b (hsub y hy hb)) s

/-! ## The pool invariant -/

/-- What a worker still has to do of the job it is in. -/
def Worker.rest : Worker S → Option (ℕ × List (Action S))
  | .busy i todo => some (i, todo)
  | _ => none

/-- The work left after `t` fetches: the rest of every job in progress, then the jobs
that no worker has fetched. -/
def pending (jobs : ℕ → List (Action S)) (total t : ℕ) (workers : List (Worker S)) :
    List (ℕ × List (Action S)) :=
  workers.filterMap Worker.rest ++ (List.range' t (total - t)).map fun i => (i, jobs i)

/-- The invariant of a pool of `n` workers after `t` fetches: each failed fetch stopped one
worker, the jobs in progress are distinct and not yet finished, the fetched indices are
the first ones in order, and the pending work leads to `final`. -/
structure Inv (pop : Q → Option ℕ × Q) (jobs : ℕ → List (Action S)) (q : Q) (n total : ℕ)
    (final : Option S) (st : State Q S) (t : ℕ) : Prop where
  dispenser_eq : st.dispenser = after pop q t
  length_eq : st.workers.length = n
  stopped_eq : st.workers.countP Worker.isStopped = t - total
  nodup : ((pending jobs total t st.workers).map Prod.fst).Nodup
  sub : ∀ p ∈ pending jobs total t st.workers, p.2 ⊆ jobs p.1
  log_eq : st.log.filterMap Prod.snd = List.range (min t total)
  result : runPending (pending jobs total t st.workers) st.shared = final

/-- The entry at position `w` splits the list around it. -/
theorem exists_split_of_getElem? {α : Type*} {l : List α} {w : ℕ} {x : α}
    (h : l[w]? = some x) : ∃ l₁ l₂, l = l₁ ++ x :: l₂ ∧ l₁.length = w := by
  obtain ⟨hw, rfl⟩ := List.getElem?_eq_some_iff.mp h
  refine ⟨l.take w, l.drop (w + 1), ?_, List.length_take_of_le hw.le⟩
  rw [← List.drop_eq_getElem_cons hw, List.take_append_drop]

/-- Replacing the entry at which a list was split. -/
theorem set_split {α : Type*} (l₁ l₂ : List α) (x y : α) :
    (l₁ ++ x :: l₂).set l₁.length y = l₁ ++ y :: l₂ := by
  rw [List.set_append_right _ _ le_rfl, Nat.sub_self, List.set_cons_zero]

variable {q : Q} {n total : ℕ} {final : Option S} {st : State Q S} {t : ℕ}

/-- The unfetched jobs, split at the next index. -/
private theorem pending_fetch (jobs : ℕ → List (Action S)) (ht : t < total)
    (l₁ l₂ : List (Worker S)) :
    (pending jobs total t (l₁ ++ .idle :: l₂)).Perm
      (pending jobs total (t + 1) (l₁ ++ .busy t (jobs t) :: l₂)) := by
  -- the next index leaves the list of unfetched jobs and becomes the rest of the worker
  obtain ⟨k, hk⟩ : ∃ k, total - t = k + 1 := ⟨total - t - 1, by omega⟩
  have hk' : total - (t + 1) = k := by omega
  simp only [pending, hk, hk', List.range'_succ, List.filterMap_append, List.filterMap_cons,
    Worker.rest, List.map_cons, List.append_assoc, List.cons_append]
  refine List.Perm.append_left _ ?_
  exact List.perm_middle

/-- A fetch that returns a job preserves the invariant. -/
private theorem Inv.fetch (hcomm : JobsCommute jobs) (h : Inv pop jobs q n total final st t)
    {w : ℕ} (hw : st.workers[w]? = some .idle) (ht : t < total) :
    Inv pop jobs q n total final
      { st with
        dispenser := (pop st.dispenser).2
        workers := st.workers.set w (.busy t (jobs t))
        log := st.log ++ [(w, some t)] } (t + 1) := by
  -- the pending work is only reordered: the fetched job is now the rest of worker `w`
  obtain ⟨l₁, l₂, hl, rfl⟩ := exists_split_of_getElem? hw
  have hperm := pending_fetch jobs ht l₁ l₂
  obtain ⟨hdisp, hlen, hstop, hnodup, hsub, hlog, hres⟩ := h
  rw [hl] at hlen hstop hnodup hsub hres
  refine ⟨?_, ?_, ?_, ?_, ?_, ?_, ?_⟩
  · rw [after_succ, hdisp]
  · simpa using hl ▸ hlen
  · simp only [hl, set_split]
    simp only [List.countP_append, List.countP_cons, Worker.isStopped, Bool.false_eq_true,
      if_false] at hstop ⊢
    omega
  · simp only [hl, set_split]
    exact (hperm.map Prod.fst).nodup_iff.mp hnodup
  · simp only [hl, set_split]
    exact fun p hp => hsub p (hperm.mem_iff.mpr hp)
  · rw [List.filterMap_append, hlog, min_eq_left ht.le, min_eq_left (by omega : t + 1 ≤ total),
      List.range_succ]
    rfl
  · simp only [hl, set_split]
    rw [← runPending_perm hcomm hperm hnodup hsub]
    exact hres

/-- A fetch that returns nothing stops its worker and preserves the invariant. -/
private theorem Inv.fetch_none (h : Inv pop jobs q n total final st t) {w : ℕ}
    (hw : st.workers[w]? = some .idle) (ht : total ≤ t) :
    Inv pop jobs q n total final
      { st with
        dispenser := (pop st.dispenser).2
        workers := st.workers.set w .stopped
        log := st.log ++ [(w, none)] } (t + 1) := by
  obtain ⟨l₁, l₂, hl, rfl⟩ := exists_split_of_getElem? hw
  -- nothing is pending for the worker, neither before nor after
  have hpend : pending jobs total (t + 1) (l₁ ++ .stopped :: l₂) =
      pending jobs total t (l₁ ++ .idle :: l₂) := by
    rw [pending, pending, show total - (t + 1) = 0 by omega, show total - t = 0 by omega]
    simp [Worker.rest, List.filterMap_cons]
  obtain ⟨hdisp, hlen, hstop, hnodup, hsub, hlog, hres⟩ := h
  rw [hl] at hlen hstop hnodup hsub hres
  refine ⟨?_, ?_, ?_, ?_, ?_, ?_, ?_⟩
  · rw [after_succ, hdisp]
  · simpa using hl ▸ hlen
  · simp only [hl, set_split]
    simp only [List.countP_append, List.countP_cons, Worker.isStopped, Bool.false_eq_true,
      if_false, if_true] at hstop ⊢
    omega
  · simpa only [hl, set_split, hpend] using hnodup
  · simpa only [hl, set_split, hpend] using hsub
  · rw [List.filterMap_append, hlog, min_eq_right ht, min_eq_right (by omega : total ≤ t + 1)]
    simp
  · simpa only [hl, set_split, hpend] using hres

/-- Performing the next action of a job preserves the invariant. -/
private theorem Inv.action (hcomm : JobsCommute jobs) (h : Inv pop jobs q n total final st t)
    {w i : ℕ} {a : Action S} {todo : List (Action S)} {s : S} (hs : st.shared = some s)
    (hw : st.workers[w]? = some (.busy i (a :: todo))) :
    Inv pop jobs q n total final
      { st with workers := st.workers.set w (.busy i todo), shared := a s } t := by
  obtain ⟨l₁, l₂, hl, rfl⟩ := exists_split_of_getElem? hw
  -- the work of the other workers and the unfetched jobs, on both sides of worker `w`
  set P₁ := l₁.filterMap Worker.rest
  set P₂ := l₂.filterMap Worker.rest ++ (List.range' t (total - t)).map fun i => (i, jobs i)
  have hpend : ∀ todo, pending jobs total t (l₁ ++ .busy i todo :: l₂) =
      P₁ ++ (i, todo) :: P₂ := by
    intro todo
    simp [pending, P₁, P₂, Worker.rest]
  obtain ⟨hdisp, hlen, hstop, hnodup, hsub, hlog, hres⟩ := h
  rw [hl] at hlen hstop hnodup hsub hres
  rw [hpend] at hnodup hsub hres
  -- the rest of the job shrinks by the action that is performed
  have hnodup' : ((P₁ ++ (i, todo) :: P₂).map Prod.fst).Nodup := by simpa using hnodup
  have hsub' : ∀ p ∈ P₁ ++ (i, todo) :: P₂, p.2 ⊆ jobs p.1 := by
    intro p hp
    rcases List.mem_append.mp hp with hp | hp
    · exact hsub p (List.mem_append_left _ hp)
    · rcases List.mem_cons.mp hp with rfl | hp
      · have := hsub (i, a :: todo) (by simp)
        exact fun b hb => this (List.mem_cons_of_mem a hb)
      · exact hsub p (List.mem_append_right _ (List.mem_cons_of_mem _ hp))
  refine ⟨hdisp, ?_, ?_, ?_, ?_, hlog, ?_⟩
  · simpa using hl ▸ hlen
  · simp only [hl, set_split]
    simpa [List.countP_append, List.countP_cons, Worker.isStopped] using hstop
  · simpa only [hl, set_split, hpend] using hnodup'
  · simpa only [hl, set_split, hpend] using hsub'
  · simp only [hl, set_split, hpend]
    -- on both sides the job of worker `w` may go first
    rw [runPending_perm hcomm List.perm_middle hnodup' hsub']
    rw [runPending_perm hcomm List.perm_middle hnodup hsub, hs] at hres
    simpa using hres

/-- Returning to the loop head preserves the invariant. -/
private theorem Inv.jobDone (h : Inv pop jobs q n total final st t) {w i : ℕ}
    (hw : st.workers[w]? = some (.busy i [])) (hcomm : JobsCommute jobs) :
    Inv pop jobs q n total final { st with workers := st.workers.set w .idle } t := by
  obtain ⟨l₁, l₂, hl, rfl⟩ := exists_split_of_getElem? hw
  -- a job without actions left can be dropped from the pending work
  have hperm : (pending jobs total t (l₁ ++ .busy i [] :: l₂)).Perm
      ((i, []) :: pending jobs total t (l₁ ++ .idle :: l₂)) := by
    simp only [pending, List.filterMap_append, List.filterMap_cons, Worker.rest,
      List.append_assoc, List.cons_append]
    exact List.perm_middle
  obtain ⟨hdisp, hlen, hstop, hnodup, hsub, hlog, hres⟩ := h
  rw [hl] at hlen hstop hnodup hsub hres
  refine ⟨hdisp, ?_, ?_, ?_, ?_, hlog, ?_⟩
  · simpa using hl ▸ hlen
  · simp only [hl, set_split]
    simpa [List.countP_append, List.countP_cons, Worker.isStopped] using hstop
  · simp only [hl, set_split]
    have := (hperm.map Prod.fst).nodup_iff.mp hnodup
    exact (List.nodup_cons.mp this).2
  · simp only [hl, set_split]
    exact fun p hp => hsub p (hperm.mem_iff.mpr (List.mem_cons_of_mem _ hp))
  · simp only [hl, set_split]
    rw [runPending_perm hcomm hperm hnodup hsub] at hres
    simpa using hres

/-- While a worker stands at its loop head, another fetch lies within the bound of the
dispenser. -/
theorem Inv.fetches_lt (h : Inv pop jobs q n total final st t) {w : ℕ}
    (hw : st.workers[w]? = some .idle) : t < total + n := by
  -- an idle worker has not stopped, so fewer than `n` fetches have failed
  have hlt : st.workers.countP Worker.isStopped < st.workers.length := by
    refine lt_of_le_of_ne List.countP_le_length fun heq => ?_
    exact absurd (List.countP_eq_length.mp heq _ (List.mem_of_getElem? hw)) Bool.false_ne_true
  rw [h.stopped_eq, h.length_eq] at hlt
  omega

/-- Worker `w` takes no further step: it has stopped, or the pool has failed. -/
def Halted (w : ℕ) (st : State Q S) : Prop :=
  st.shared = none ∨ st.workers[w]? = none ∨ st.workers[w]? = some .stopped

/-- The number of steps a worker takes before its next fetch and for that fetch. -/
def Worker.cost : Worker S → ℕ
  | .idle => 1
  | .busy _ todo => todo.length + 2
  | .stopped => 0

/-- The number of steps that the pool takes after `t` fetches. -/
def remaining (jobs : ℕ → List (Action S)) (total t : ℕ) (workers : List (Worker S)) : ℕ :=
  (workers.map Worker.cost).sum +
    ((List.range' t (total - t)).map fun i => (jobs i).length + 2).sum

/-- A worker that stands neither at its loop head nor in a job is halted. -/
theorem halted_of_step {w : ℕ} {st : State Q S}
    (hidle : ∀ s, st.shared = some s → st.workers[w]? = some .idle → False)
    (hbusy : ∀ s i a todo, st.shared = some s →
      st.workers[w]? = some (.busy i (a :: todo)) → False)
    (hnil : ∀ s i, st.shared = some s → st.workers[w]? = some (.busy i []) → False) :
    Halted w st := by
  rcases hs : st.shared with _ | s
  · exact .inl hs
  · refine .inr ?_
    rcases hw : st.workers[w]? with _ | (_ | ⟨i, _ | ⟨a, todo⟩⟩ | _)
    · exact .inl rfl
    · exact (hidle s hs hw).elim
    · exact (hnil s i hs hw).elim
    · exact (hbusy s i a todo hs hw).elim
    · exact .inr rfl

/-- Replacing a worker changes the remaining steps by the difference of the costs. -/
theorem remaining_set (jobs : ℕ → List (Action S)) (total t : ℕ) {workers : List (Worker S)}
    {w : ℕ} {x : Worker S} (hw : workers[w]? = some x) (y : Worker S) :
    remaining jobs total t (workers.set w y) + x.cost =
      remaining jobs total t workers + y.cost := by
  obtain ⟨l₁, l₂, rfl, rfl⟩ := exists_split_of_getElem? hw
  simp only [set_split, remaining, List.map_append, List.map_cons, List.sum_append,
    List.sum_cons]
  omega

/-- A job that is fetched is no longer among the remaining ones. -/
theorem remaining_fetch (jobs : ℕ → List (Action S)) {total t : ℕ} (ht : t < total)
    (workers : List (Worker S)) :
    remaining jobs total t workers =
      remaining jobs total (t + 1) workers + ((jobs t).length + 2) := by
  obtain ⟨k, hk⟩ : ∃ k, total - t = k + 1 := ⟨total - t - 1, by omega⟩
  have hk' : total - (t + 1) = k := by omega
  simp only [remaining, hk, hk', List.range'_succ, List.map_cons, List.sum_cons]
  omega

/-- Behind the last job a fetch takes no job away. -/
theorem remaining_fetch_none (jobs : ℕ → List (Action S)) {total t : ℕ} (ht : total ≤ t)
    (workers : List (Worker S)) :
    remaining jobs total (t + 1) workers = remaining jobs total t workers := by
  rw [remaining, remaining, Nat.sub_eq_zero_of_le ht, Nat.sub_eq_zero_of_le (Nat.le_succ_of_le ht)]
  rfl

/-- One atomic step of any worker preserves the pool invariant, and it uses up exactly one
of the remaining steps unless the worker is halted. -/
theorem Inv.step (hcomm : JobsCommute jobs)
    (hserves : Serves pop q total (total + n)) (h : Inv pop jobs q n total final st t)
    (w : ℕ) :
    ∃ t', Inv pop jobs q n total final (WorkPool.step pop jobs w st) t' ∧
      ((Halted w st ∧ remaining jobs total t' (WorkPool.step pop jobs w st).workers =
          remaining jobs total t st.workers) ∨
        remaining jobs total t' (WorkPool.step pop jobs w st).workers + 1 =
          remaining jobs total t st.workers) := by
  unfold WorkPool.step
  split
  next s hs hw =>
    -- a worker at its loop head fetches
    have hpop := hserves t (h.fetches_lt hw)
    rw [← h.dispenser_eq] at hpop
    refine ⟨t + 1, ?_⟩
    by_cases ht : t < total
    · rw [if_pos ht] at hpop
      refine ⟨by simpa [hpop] using h.fetch hcomm hw ht, .inr ?_⟩
      have hset := remaining_set jobs total (t + 1) hw (.busy t (jobs t))
      have hfetch := remaining_fetch jobs ht st.workers
      simp only [hpop, Option.elim_some, Worker.cost] at hset ⊢
      omega
    · rw [if_neg ht] at hpop
      refine ⟨by simpa [hpop] using h.fetch_none hw (by omega), .inr ?_⟩
      have hset := remaining_set jobs total (t + 1) hw .stopped
      have hfetch := remaining_fetch_none jobs (not_lt.mp ht) st.workers
      simp only [hpop, Option.elim_none, Worker.cost] at hset ⊢
      omega
  next s i a todo hs hw =>
    -- a worker inside a job performs its next action
    refine ⟨t, h.action hcomm hs hw, .inr ?_⟩
    have hset := remaining_set jobs total t hw (.busy i todo)
    simp only [Worker.cost, List.length_cons] at hset ⊢
    omega
  next s i hs hw =>
    -- a worker at the end of its job returns to the loop head
    refine ⟨t, h.jobDone hw hcomm, .inr ?_⟩
    have hset := remaining_set jobs total t hw .idle
    simp only [Worker.cost, List.length_nil] at hset ⊢
    omega
  next hidle hbusy hnil =>
    -- every other worker is halted
    exact ⟨t, h, .inl ⟨halted_of_step hidle hbusy hnil, rfl⟩⟩

/-- Running jobs in order, with each job paired with its index. -/
private theorem runPending_range (jobs : ℕ → List (Action S)) (total : ℕ) (s : Option S) :
    runPending ((List.range total).map fun i => (i, jobs i)) s =
      s.bind (runJobs jobs total) := by
  induction total with
  | zero => cases s <;> rfl
  | succ total ih =>
      rw [List.range_succ, List.map_append, runPending_append, ih, List.map_singleton,
        runPending_cons, runPending_nil, Option.bind_assoc]
      congr 1
      funext s
      rw [runJobs_succ]

/-- A pool that has not started satisfies the invariant, with the sequential run of the
jobs as its final result. -/
theorem inv_init (pop : Q → Option ℕ × Q) (jobs : ℕ → List (Action S)) (q : Q)
    (n total : ℕ) (s : S) :
    Inv pop jobs q n total (runJobs jobs total s) (init n q s) 0 := by
  have hpend : pending jobs total 0 (List.replicate n Worker.idle) =
      (List.range total).map fun i => (i, jobs i) := by
    simp [pending, Worker.rest, List.range_eq_range']
  refine ⟨rfl, by simp [init], ?_, ?_, ?_, by simp [init], ?_⟩
  · simp [init, List.countP_replicate, Worker.isStopped]
  · simp only [init, hpend, List.map_map, Function.comp_def, List.map_id']
    exact List.nodup_range
  · simp only [init, hpend]
    intro p hp
    obtain ⟨i, -, rfl⟩ := List.mem_map.mp hp
    exact fun a ha => ha
  · simp only [init, hpend, runPending_range, Option.bind_some]

/-! ## Joining -/

/-- A halted worker stays halted, whichever worker moves. -/
theorem Halted.step {w : ℕ} (h : Halted w st) (w' : ℕ) : Halted w (step pop jobs w' st) := by
  -- the entry of a stopped worker is never replaced
  have hset : ∀ x : Worker S, (st.workers[w]? = none ∨ st.workers[w]? = some .stopped) →
      st.workers[w']? ≠ none → st.workers[w']? ≠ some .stopped →
      (st.workers.set w' x)[w]? = st.workers[w]? := by
    intro x hw hne hns
    rw [List.getElem?_set_ne]
    rintro rfl
    exact hw.elim hne hns
  unfold WorkPool.step
  rcases h with h | h
  · simp [Halted, h]
  · split
    next hw => exact .inr (by simpa only [hset _ h (by simp [hw]) (by simp [hw])] using h)
    next hw => exact .inr (by simpa only [hset _ h (by simp [hw]) (by simp [hw])] using h)
    next hw => exact .inr (by simpa only [hset _ h (by simp [hw]) (by simp [hw])] using h)
    next => exact .inr h

/-- A halted worker stays halted along a schedule. -/
theorem Halted.run {w : ℕ} (schedule : List ℕ) (h : Halted w st) :
    Halted w (run pop jobs schedule st) := by
  induction schedule generalizing st with
  | nil => exact h
  | cons w' schedule ih => exact ih (h.step w')

section Joining

variable {P : State Q S → ℕ → Prop}
  (hstep : ∀ {st : State Q S} {m : ℕ}, P st m → ∀ w,
    (Halted w st ∧ P (step pop jobs w st) m) ∨
      ∃ m', m = m' + 1 ∧ P (step pop jobs w st) m')
include hstep

/-- Along a schedule a property is kept whose number of steps never increases. -/
theorem run_of_step {m : ℕ} (h : P st m) (schedule : List ℕ) :
    ∃ m' ≤ m, P (run pop jobs schedule st) m' := by
  induction schedule generalizing st m with
  | nil => exact ⟨m, le_rfl, h⟩
  | cons w schedule ih =>
      rcases hstep h w with ⟨-, h'⟩ | ⟨m', rfl, h'⟩
      · exact ih h'
      · obtain ⟨m'', hle, h''⟩ := ih h'
        exact ⟨m'', Nat.le_succ_of_le hle, h''⟩

/-- A worker that is run `fuel` times in a row halts, or it uses up `fuel` of the remaining
steps. -/
private theorem run_replicate (w fuel : ℕ) {m : ℕ} (h : P st m) :
    ∃ m', P (run pop jobs (List.replicate fuel w) st) m' ∧
      (Halted w (run pop jobs (List.replicate fuel w) st) ∧ m' ≤ m ∨ m' + fuel ≤ m) := by
  -- each run in a row uses up one step, until the worker has halted
  induction fuel generalizing st m with
  | zero => exact ⟨m, h, .inr le_rfl⟩
  | succ fuel ih =>
      rcases hstep h w with ⟨hhalt, h'⟩ | ⟨m', rfl, h'⟩
      · obtain ⟨m'', hle, h''⟩ := run_of_step hstep h' (List.replicate fuel w)
        exact ⟨m'', h'', .inl ⟨(hhalt.step w).run _, hle⟩⟩
      · obtain ⟨m'', h'', hm⟩ := ih h'
        refine ⟨m'', h'', ?_⟩
        rcases hm with ⟨hhalt, hle⟩ | hle
        · exact .inl ⟨hhalt, Nat.le_succ_of_le hle⟩
        · exact .inr (Nat.succ_le_succ hle)

/-- Joining halts every worker, from any state of the pool. -/
theorem join_of_step {fuel : ℕ} (k : ℕ) {m : ℕ} (h : P st m) (hfuel : m ≤ fuel) :
    ∃ m' ≤ m, P (run pop jobs (joinSchedule k fuel) st) m' ∧
      ∀ w < k, Halted w (run pop jobs (joinSchedule k fuel) st) := by
  -- the steps that remain never grow, so the fuel is enough for each worker in turn
  induction k with
  | zero => exact ⟨m, le_rfl, h, fun w hw => absurd hw (Nat.not_lt_zero w)⟩
  | succ k ih =>
      obtain ⟨m₁, hle₁, h₁, hhalt⟩ := ih
      obtain ⟨m₂, h₂, hm⟩ := run_replicate hstep k fuel h₁
      have hrun : run pop jobs (joinSchedule (k + 1) fuel) st =
          run pop jobs (List.replicate fuel k) (run pop jobs (joinSchedule k fuel) st) := by
        simp [run, joinSchedule, List.range_succ, List.foldl_append]
      rw [hrun]
      refine ⟨m₂, by rcases hm with ⟨-, hle⟩ | hle <;> omega, h₂, fun w hw => ?_⟩
      rcases Nat.lt_succ_iff_lt_or_eq.mp hw with hw | rfl
      · exact (hhalt w hw).run _
      · rcases hm with ⟨hhalt', -⟩ | hle
        · exact hhalt'
        · -- no step is left, so the worker cannot move
          rcases hstep h₂ w with ⟨hhalt', -⟩ | ⟨m', rfl, -⟩
          · exact hhalt'
          · omega

end Joining

/-! ## Results -/

/-- The pool starts with a whole budget of steps. -/
theorem remaining_init (jobs : ℕ → List (Action S)) (total n : ℕ) (q : Q) (s : S) :
    remaining jobs total 0 (init n q s).workers = budget jobs n total := by
  simp [remaining, budget, init, Worker.cost, List.range_eq_range', Nat.add_comm]

/-- The invariant of a pool with `m` steps remaining. -/
private def InvSteps (pop : Q → Option ℕ × Q) (jobs : ℕ → List (Action S)) (q : Q)
    (n total : ℕ) (final : Option S) (st : State Q S) (m : ℕ) : Prop :=
  ∃ t, Inv pop jobs q n total final st t ∧ remaining jobs total t st.workers = m

private theorem InvSteps.step (hcomm : JobsCommute jobs)
    (hserves : Serves pop q total (total + n)) {st : State Q S} {m : ℕ}
    (h : InvSteps pop jobs q n total final st m) (w : ℕ) :
    (Halted w st ∧ InvSteps pop jobs q n total final (WorkPool.step pop jobs w st) m) ∨
      ∃ m', m = m' + 1 ∧
        InvSteps pop jobs q n total final (WorkPool.step pop jobs w st) m' := by
  obtain ⟨t, h, rfl⟩ := h
  obtain ⟨t', h', ⟨hhalt, hrem⟩ | hrem⟩ := h.step hcomm hserves w
  · exact .inl ⟨hhalt, t', h', hrem⟩
  · exact .inr ⟨_, hrem.symm, t', h', rfl⟩

/-- After a schedule and the joining of all workers the invariant holds and every worker
has halted. -/
private theorem execute_inv (hcomm : JobsCommute jobs)
    (hserves : Serves pop q total (total + n)) (schedule : List ℕ) (s : S) :
    ∃ t, Inv pop jobs q n total (runJobs jobs total s)
        (execute pop jobs n total schedule q s) t ∧
      ∀ w < n, Halted w (execute pop jobs n total schedule q s) := by
  obtain ⟨m, hle, hrun⟩ := run_of_step (P := InvSteps pop jobs q n total (runJobs jobs total s))
    (fun h w => h.step hcomm hserves w)
    ⟨0, inv_init pop jobs q n total s, remaining_init jobs total n q s⟩ schedule
  obtain ⟨_, -, ⟨t, h, -⟩, hhalt⟩ :=
    join_of_step (P := InvSteps pop jobs q n total (runJobs jobs total s))
      (fun h w => h.step hcomm hserves w) n hrun hle
  have hexecute : execute pop jobs n total schedule q s =
      run pop jobs (joinSchedule n (budget jobs n total))
        (run pop jobs schedule (init n q s)) := List.foldl_append
  rw [hexecute]
  exact ⟨t, h, hhalt⟩

/-- If every worker of a pool that did not fail has halted, all fetches have been made and
no work is left. -/
private theorem Inv.finished (hn : 0 < n) (h : Inv pop jobs q n total final st t)
    (hhalt : ∀ w < n, Halted w st) (hs : st.shared ≠ none) :
    total ≤ t ∧ pending jobs total t st.workers = [] := by
  have hall : ∀ x ∈ st.workers, x = .stopped := by
    intro x hx
    obtain ⟨w, hw, rfl⟩ := List.mem_iff_getElem.mp hx
    rcases hhalt w (h.length_eq ▸ hw) with hnone | hnone | hstop
    · exact (hs hnone).elim
    · rw [List.getElem?_eq_getElem hw] at hnone
      exact absurd hnone (by simp)
    · rw [List.getElem?_eq_getElem hw] at hstop
      exact Option.some.inj hstop
  -- all `n` workers were stopped by fetches past the end of the jobs
  have hcount : st.workers.countP Worker.isStopped = st.workers.length :=
    List.countP_eq_length.mpr fun x hx => by rw [hall x hx]; rfl
  rw [h.stopped_eq, h.length_eq] at hcount
  have ht : total ≤ t := by omega
  have hrest : st.workers.filterMap Worker.rest = [] :=
    List.filterMap_eq_nil_iff.mpr fun x hx => by rw [hall x hx]; rfl
  exact ⟨ht, by rw [pending, hrest, Nat.sub_eq_zero_of_le ht]; rfl⟩

/-- **Schedule independence.** If the actions of different jobs commute and the dispenser
serves `0, …, total - 1` and then nothing, every schedule ends with the result of running
the jobs in order on one thread. -/
theorem execute_shared (hn : 0 < n) (hcomm : JobsCommute jobs)
    (hserves : Serves pop q total (total + n)) (schedule : List ℕ) (s : S) :
    (execute pop jobs n total schedule q s).shared = runJobs jobs total s := by
  obtain ⟨t, h, hhalt⟩ := execute_inv hcomm hserves schedule s
  rw [← h.result]
  rcases hs : (execute pop jobs n total schedule q s).shared with _ | s'
  · -- a failed pool stays failed
    generalize pending jobs total t _ = P
    induction P with
    | nil => rfl
    | cons p P ih => simpa using ih
  · rw [(h.finished hn hhalt (by simp [hs])).2, runPending_nil]

end WorkPool
