import Redcli.Support.WorkPool

/-!
# Histories of Worker Pools

Which worker fetches which index and performs which action, along any schedule. Nothing is
assumed about the actions: they need not commute, and they may fail.

## Main results

* `history_run`: the invariant `History` holds along every schedule;
* `History.issued`, `History.increasing`, `History.failed_le_one`: the indices are issued in
  order, each once, each worker receives increasing ones, and fails to fetch at most once;
* `History.served_once`: behind a pool whose workers have all stopped, each index was fetched
  by one worker, which performed all actions of the job;
* `execute_stopped`: after the join all workers have stopped, unless an action failed.
-/

namespace WorkPool

variable {Q S : Type}

/-- The job of which worker `w` performs an action in its next step. -/
def actor (w : ℕ) (st : State Q S) : Option (ℕ × ℕ) :=
  -- only a worker inside a job acts, and none does after a failure
  match st.shared, st.workers[w]? with
  | some _, some (.busy i (_ :: _)) => some (w, i)
  | _, _ => none

/-- The actions that are performed along a schedule: the worker and the job of each. -/
def performed (pop : Q → Option ℕ × Q) (jobs : ℕ → List (Action S)) :
    List ℕ → State Q S → List (ℕ × ℕ)
  | [], _ => []
  | w :: schedule, st =>
      (actor w st).toList ++ performed pop jobs schedule (step pop jobs w st)

/-- The number of actions of job `i` that are left for a worker. -/
def Worker.left (i : ℕ) : Worker S → ℕ
  | .busy j todo => if j = i then todo.length else 0
  | _ => 0

/-- The number of actions of job `i` that are left for worker `w`. -/
def leftFor (st : State Q S) (w i : ℕ) : ℕ := st.workers[w]?.elim 0 (Worker.left i)

/-- Whether worker `w` has stopped. -/
def hasStopped (st : State Q S) (w : ℕ) : Bool := st.workers[w]?.elim false Worker.isStopped

/-- The history of a pool of `n` workers: the fetches return `0, …, total - 1` in order and
then nothing, each worker has failed to fetch once if it has stopped and else never, a worker
is busy with an index that it has fetched, and the actions of a job are performed by the worker
that fetched it. -/
structure History (pop : Q → Option ℕ × Q) (jobs : ℕ → List (Action S)) (q : Q) (n total : ℕ)
    (st : State Q S) (trace : List (ℕ × ℕ)) : Prop where
  dispenser_eq : st.dispenser = after pop q st.log.length
  length_eq : st.workers.length = n
  stopped_eq : st.workers.countP Worker.isStopped = st.log.length - total
  fetched : ∀ k v, st.log[k]? = some v → v.1 < n ∧ v.2 = if k < total then some k else none
  failed : ∀ w, st.log.count (w, none) = (hasStopped st w).toNat
  busy : ∀ w i todo, st.workers[w]? = some (.busy i todo) → (w, some i) ∈ st.log
  acted : ∀ v ∈ trace, (v.1, some v.2) ∈ st.log
  done : ∀ w i, (w, some i) ∈ st.log →
    trace.count (w, i) + leftFor st w i = (jobs i).length

variable {pop : Q → Option ℕ × Q} {jobs : ℕ → List (Action S)} {q : Q} {n total : ℕ}
  {st : State Q S} {trace : List (ℕ × ℕ)}

/-! ## What the invariant says -/

/-- The indices that were issued: the first ones, in order. -/
theorem History.issued (h : History pop jobs q n total st trace) :
    st.log.filterMap Prod.snd = List.range (min st.log.length total) := by
  -- the first `k` entries hold the first indices
  have hfront : ∀ k ≤ st.log.length,
      (st.log.take k).filterMap Prod.snd = List.range (min k total) := by
    intro k hk
    induction k with
    | zero => simp
    | succ k ih =>
        have hlast : st.log[k]? = some st.log[k] := List.getElem?_eq_getElem hk
        obtain ⟨-, hindex⟩ := h.fetched k _ hlast
        rw [List.take_add_one, List.filterMap_append, ih (Nat.le_of_succ_le hk), hlast,
          Option.toList_some, List.filterMap_cons, hindex]
        by_cases hlt : k < total
        · rw [if_pos hlt, min_eq_left hlt.le, min_eq_left (by omega : k + 1 ≤ total),
            List.range_succ]
          rfl
        · rw [if_neg hlt, min_eq_right (not_lt.mp hlt), min_eq_right (by omega : total ≤ k + 1)]
          exact List.append_nil _
  have := hfront st.log.length le_rfl
  rwa [List.take_length] at this

/-- Each worker receives increasing indices. -/
theorem History.increasing (h : History pop jobs q n total st trace) (w : ℕ) :
    ((st.log.filter fun v => v.1 = w).filterMap Prod.snd).Pairwise (· < ·) := by
  -- the indices of one worker are some of those that were issued in order
  have hsub : ((st.log.filter fun v => v.1 = w).filterMap Prod.snd).Sublist
      (List.range (min st.log.length total)) := by
    rw [← h.issued]
    exact List.filter_sublist.filterMap _
  exact List.pairwise_lt_range.sublist hsub

/-- No worker fails to fetch twice. -/
theorem History.failed_le_one (h : History pop jobs q n total st trace) (w : ℕ) :
    st.log.count (w, none) ≤ 1 := by
  rw [h.failed w]
  exact Bool.toNat_le _

/-- At most `n` fetches fail. -/
theorem History.length_le (h : History pop jobs q n total st trace) :
    st.log.length ≤ total + n := by
  have hle := List.countP_le_length (p := Worker.isStopped) (l := st.workers)
  rw [h.stopped_eq, h.length_eq] at hle
  omega

/-- Index `i` was issued by the fetch with this number. -/
theorem History.mem_log_iff (h : History pop jobs q n total st trace) {w i : ℕ} :
    (w, some i) ∈ st.log ↔ st.log[i]? = some (w, some i) := by
  constructor
  · intro hmem
    -- an index is issued by the fetch that has its number
    obtain ⟨k, hk⟩ := List.mem_iff_getElem?.mp hmem
    obtain ⟨-, hindex⟩ := h.fetched k _ hk
    split_ifs at hindex with hlt
    obtain rfl := Option.some.inj hindex
    exact hk
  · exact fun hget => List.mem_of_getElem? hget

/-- An index that was issued is less than the number of fetches. -/
theorem History.lt_length (h : History pop jobs q n total st trace) {w i : ℕ}
    (hmem : (w, some i) ∈ st.log) : i < st.log.length :=
  (List.getElem?_eq_some_iff.mp (h.mem_log_iff.mp hmem)).1

/-! ## Preservation -/

/-- A pool that has not started has no history. -/
theorem history_init (pop : Q → Option ℕ × Q) (jobs : ℕ → List (Action S)) (q : Q)
    (n total : ℕ) (s : S) : History pop jobs q n total (init n q s) [] where
  dispenser_eq := rfl
  length_eq := by simp [init]
  stopped_eq := by simp [init, List.countP_replicate, Worker.isStopped]
  fetched := fun k v hv => by simp [init] at hv
  failed := fun w => by
    by_cases hw : w < n <;> simp [init, hasStopped, Worker.isStopped, hw]
  busy := fun w i todo hw => by
    simp [init, List.getElem?_replicate] at hw
  acted := fun v hv => absurd hv List.not_mem_nil
  done := fun w i hmem => absurd hmem List.not_mem_nil

section Step

variable {w w' i : ℕ} {x y : Worker S}

/-- The entry of a worker that is replaced, and of the others. -/
private theorem getElem?_workers_set (hw : st.workers[w]? = some x) :
    (st.workers.set w y)[w']? = if w = w' then some y else st.workers[w']? := by
  obtain ⟨hlt, -⟩ := List.getElem?_eq_some_iff.mp hw
  rw [List.getElem?_set]
  split_ifs with heq
  · rfl
  · rfl

/-- Replacing a worker in the count of stopped ones. -/
private theorem countP_workers_set (hw : st.workers[w]? = some x) (hx : x.isStopped = false) :
    (st.workers.set w y).countP Worker.isStopped =
      st.workers.countP Worker.isStopped + y.isStopped.toNat := by
  obtain ⟨l₁, l₂, hl, rfl⟩ := exists_split_of_getElem? hw
  rw [hl, set_split]
  cases hy : y.isStopped <;> simp [hx, hy, Nat.add_assoc]

/-- While a worker stands at its loop head, another fetch lies within the bound of the
dispenser. -/
theorem History.fetches_lt (h : History pop jobs q n total st trace)
    (hw : st.workers[w]? = some .idle) : st.log.length < total + n := by
  -- an idle worker has not stopped, so fewer than `n` fetches have failed
  have hlt : st.workers.countP Worker.isStopped < st.workers.length := by
    refine lt_of_le_of_ne List.countP_le_length fun heq => ?_
    exact absurd (List.countP_eq_length.mp heq _ (List.mem_of_getElem? hw)) Bool.false_ne_true
  rw [h.stopped_eq, h.length_eq] at hlt
  omega

/-- A fetch is entered in the history. -/
private theorem History.fetch (h : History pop jobs q n total st trace)
    (hw : st.workers[w]? = some .idle) {job : Option ℕ}
    (hjob : job = if st.log.length < total then some st.log.length else none) :
    History pop jobs q n total
      { st with
        dispenser := (pop st.dispenser).2
        workers := st.workers.set w (job.elim .stopped fun i => .busy i (jobs i))
        log := st.log ++ [(w, job)] } trace := by
  have hlt : w < n := h.length_eq ▸ (List.getElem?_eq_some_iff.mp hw).1
  -- a worker that receives nothing stops
  have hstopped : (job.elim (.stopped : Worker S) fun i => .busy i (jobs i)).isStopped =
      job.isNone := by cases job <;> rfl
  -- the new entry of the log is the last one
  constructor
  case dispenser_eq => rw [h.dispenser_eq, List.length_append, List.length_singleton, after_succ]
  case length_eq => rw [List.length_set, h.length_eq]
  case stopped_eq =>
    rw [countP_workers_set hw rfl, hstopped, h.stopped_eq, List.length_append,
      List.length_singleton, hjob]
    split_ifs with hmore
    · simp only [Option.isNone_some, Bool.toNat_false]
      omega
    · simp only [Option.isNone_none, Bool.toNat_true]
      omega
  case fetched =>
    intro k v hv
    rcases Nat.lt_trichotomy k st.log.length with hk | rfl | hk
    · rw [List.getElem?_append_left hk] at hv
      exact h.fetched k v hv
    · rw [List.getElem?_concat_length, Option.some.injEq] at hv
      subst hv
      exact ⟨hlt, hjob⟩
    · rw [List.getElem?_eq_none (by rw [List.length_append, List.length_singleton]; omega)] at hv
      cases hv
  case failed =>
    intro w'
    rw [List.count_append, h.failed w', hasStopped, hasStopped, getElem?_workers_set hw]
    by_cases heq : w = w'
    · subst heq
      rw [hw, if_pos rfl, Option.elim_some, Option.elim_some, hstopped]
      cases job <;> simp [Worker.isStopped]
    · simp [heq]
  case busy =>
    intro w' i todo hbusy
    rw [getElem?_workers_set hw] at hbusy
    split_ifs at hbusy with heq
    · subst heq
      cases job with
      | none => cases hbusy
      | some j =>
          obtain ⟨rfl, -⟩ := Worker.busy.inj (Option.some.inj hbusy)
          exact List.mem_append_right _ List.mem_cons_self
    · exact List.mem_append_left _ (h.busy w' i todo hbusy)
  case acted => exact fun v hv => List.mem_append_left _ (h.acted v hv)
  case done =>
    intro w' i hmem
    rw [leftFor, getElem?_workers_set hw]
    rcases List.mem_append.mp hmem with hold | hnew
    · -- an older index is not the one that is fetched
      have hi := h.lt_length hold
      have hleft := h.done w' i hold
      rw [leftFor] at hleft
      split_ifs with heq
      · subst heq
        rw [hw] at hleft
        rw [← hleft, Option.elim_some, Option.elim_some, hjob]
        congr 1
        split_ifs with hmore
        · exact if_neg (by omega)
        · rfl
      · exact hleft
    · -- nobody has acted on a new index
      obtain ⟨rfl, hsome⟩ := Prod.mk.inj (List.mem_singleton.mp hnew)
      rw [← hsome] at hjob ⊢
      split_ifs at hjob with hmore
      obtain rfl := Option.some.inj hjob
      have hcount : trace.count (w', st.log.length) = 0 :=
        List.count_eq_zero.mpr fun hacted => absurd (h.lt_length (h.acted _ hacted)) (lt_irrefl _)
      rw [if_pos rfl, hcount, Nat.zero_add]
      exact if_pos rfl

/-- A worker in a job that goes on with it, after a number of its actions. -/
private theorem History.busy_set (h : History pop jobs q n total st trace) {todo : List (Action S)}
    (hw : st.workers[w]? = some (.busy i todo)) (hx : y.isStopped = false)
    (hy : ∀ j todo', y = .busy j todo' → j = i) {acted : List (ℕ × ℕ)}
    (hacted : ∀ v ∈ acted, v = (w, i))
    (hleft : acted.length + y.left i = todo.length) (shared : Option S) :
    History pop jobs q n total { st with workers := st.workers.set w y, shared := shared }
      (trace ++ acted) := by
  have hmine := h.busy w i todo hw
  -- the new actions are all those of worker `w` in its job
  have hcount : ∀ w' j, acted.count (w', j) = if w' = w ∧ j = i then acted.length else 0 := by
    intro w' j
    split_ifs with heq
    · obtain ⟨rfl, rfl⟩ := heq
      exact List.count_eq_length.mpr fun v hv => (hacted v hv).symm
    · refine List.count_eq_zero.mpr fun hmem => heq ?_
      obtain ⟨rfl, rfl⟩ := Prod.mk.inj (hacted _ hmem)
      exact ⟨rfl, rfl⟩
  constructor
  case dispenser_eq => exact h.dispenser_eq
  case length_eq => rw [List.length_set, h.length_eq]
  case stopped_eq =>
    rw [countP_workers_set hw rfl, hx, h.stopped_eq, Bool.toNat_false, Nat.add_zero]
  case fetched => exact h.fetched
  case failed =>
    intro w'
    rw [h.failed w', hasStopped, hasStopped, getElem?_workers_set hw]
    split_ifs with heq
    · rw [← heq, hw, Option.elim_some, Option.elim_some, hx]
      rfl
    · rfl
  case busy =>
    intro w' j todo' hbusy
    rw [getElem?_workers_set hw] at hbusy
    split_ifs at hbusy with heq
    · rw [← heq, hy j todo' (Option.some.inj hbusy)]
      exact hmine
    · exact h.busy w' j todo' hbusy
  case acted =>
    intro v hv
    rcases List.mem_append.mp hv with hold | hnew
    · exact h.acted v hold
    · rw [hacted v hnew]
      exact hmine
  case done =>
    intro w' j hmem
    have hdone := h.done w' j hmem
    rw [leftFor] at hdone
    rw [leftFor, List.count_append, hcount, getElem?_workers_set hw]
    by_cases heq : w = w'
    · subst heq
      rw [hw, Option.elim_some] at hdone
      rw [if_pos rfl, Option.elim_some, ← hdone]
      by_cases hj : j = i
      · subst hj
        rw [if_pos ⟨rfl, rfl⟩, Worker.left, if_pos rfl]
        omega
      · -- the worker has nothing to do with another job
        have hzero : y.left j = 0 := by
          cases y with
          | busy k todo' =>
              obtain rfl := hy k todo' rfl
              exact if_neg fun h => hj h.symm
          | idle => rfl
          | stopped => rfl
        rw [if_neg fun h => hj h.2, Worker.left, if_neg fun h => hj h.symm, hzero]
    · rw [if_neg fun h => heq h.1.symm, if_neg heq, Nat.add_zero]
      exact hdone

/-- One step of any worker is entered in the history, and it uses up one of the remaining
steps unless the worker is halted. -/
theorem History.step (hserves : Serves pop q total (total + n))
    (h : History pop jobs q n total st trace) (w : ℕ) :
    History pop jobs q n total (WorkPool.step pop jobs w st) (trace ++ (actor w st).toList) ∧
      ((Halted w st ∧ remaining jobs total (WorkPool.step pop jobs w st).log.length
          (WorkPool.step pop jobs w st).workers = remaining jobs total st.log.length st.workers) ∨
        remaining jobs total (WorkPool.step pop jobs w st).log.length
          (WorkPool.step pop jobs w st).workers + 1 =
            remaining jobs total st.log.length st.workers) := by
  unfold WorkPool.step
  split
  next s hs hw =>
    -- a worker at its loop head fetches
    have hpop := hserves _ (h.fetches_lt hw)
    rw [← h.dispenser_eq] at hpop
    have hactor : actor w st = none := by rw [actor, hs, hw]
    simp only [hactor, Option.toList_none, List.append_nil, List.length_append,
      List.length_singleton]
    refine ⟨h.fetch hw hpop, .inr ?_⟩
    by_cases hlt : st.log.length < total
    · rw [if_pos hlt] at hpop
      have hset := remaining_set jobs total (st.log.length + 1) hw
        (.busy st.log.length (jobs st.log.length))
      have hfetch := remaining_fetch jobs hlt st.workers
      simp only [hpop, Option.elim_some, Worker.cost] at hset ⊢
      omega
    · rw [if_neg hlt] at hpop
      have hset := remaining_set jobs total (st.log.length + 1) hw .stopped
      have hfetch := remaining_fetch_none jobs (not_lt.mp hlt) st.workers
      simp only [hpop, Option.elim_none, Worker.cost] at hset ⊢
      omega
  next s i a todo hs hw =>
    -- a worker inside a job performs its next action
    have hactor : actor w st = some (w, i) := by rw [actor, hs, hw]
    rw [hactor]
    refine ⟨h.busy_set hw rfl (fun j todo' heq => (Worker.busy.inj heq).1.symm)
      (fun v hv => List.mem_singleton.mp hv) ?_ (a s), .inr ?_⟩
    · simp [Worker.left, Nat.add_comm]
    · have hset := remaining_set jobs total st.log.length hw (.busy i todo)
      simp only [Worker.cost, List.length_cons] at hset ⊢
      omega
  next s i hs hw =>
    -- a worker at the end of its job returns to the loop head
    have hactor : actor w st = none := by rw [actor, hs, hw]
    rw [hactor]
    refine ⟨h.busy_set hw rfl (fun j todo' heq => by cases heq)
      (fun v hv => absurd hv List.not_mem_nil) rfl st.shared, .inr ?_⟩
    · have hset := remaining_set jobs total st.log.length hw .idle
      simp only [Worker.cost, List.length_nil] at hset ⊢
      omega
  next hidle hbusy hnil =>
    -- every other worker is halted
    have hhalt := halted_of_step hidle hbusy hnil
    have hactor : actor w st = none := by
      unfold actor
      split
      next hs hw => exact (hbusy _ _ _ _ hs hw).elim
      next => rfl
    rw [hactor, Option.toList_none, List.append_nil]
    exact ⟨h, .inl ⟨hhalt, rfl⟩⟩

/-- A schedule is entered in the history. -/
theorem History.run (hserves : Serves pop q total (total + n)) (schedule : List ℕ)
    (h : History pop jobs q n total st trace) :
    History pop jobs q n total (WorkPool.run pop jobs schedule st)
      (trace ++ performed pop jobs schedule st) := by
  -- the trace of a schedule is that of its steps
  induction schedule generalizing st trace with
  | nil => simpa [WorkPool.run, performed] using h
  | cons w schedule ih =>
      have := ih (h.step hserves w).1
      rwa [List.append_assoc] at this

end Step

/-! ## Results -/

/-- What is promised about a pool whose workers have all stopped: every index was issued,
every worker failed to fetch once, and each index was fetched once, by one worker, which
performed all actions of the job. -/
structure ServedOnce (jobs : ℕ → List (Action S)) (n total : ℕ) (log : List (ℕ × Option ℕ))
    (trace : List (ℕ × ℕ)) : Prop where
  issued : log.filterMap Prod.snd = List.range total
  failed : ∀ w < n, log.count (w, none) = 1
  handled : ∀ i < total, ∃ w < n, log.count (w, some i) = 1 ∧
    trace.count (w, i) = (jobs i).length ∧
      ∀ w', w' ≠ w → (w', some i) ∉ log ∧ (w', i) ∉ trace

/-- Behind a pool whose workers have all stopped, everything was served once. -/
theorem History.served_once (hn : 0 < n) (h : History pop jobs q n total st trace)
    (hall : ∀ w < n, st.workers[w]? = some .stopped) : ServedOnce jobs n total st.log trace := by
  -- all `n` workers were stopped by fetches past the end of the jobs
  have hlength : st.log.length = total + n := by
    have hcount : st.workers.countP Worker.isStopped = st.workers.length := by
      refine List.countP_eq_length.mpr fun x hx => ?_
      obtain ⟨w, hw⟩ := List.mem_iff_getElem?.mp hx
      have hlt : w < n := h.length_eq ▸ (List.getElem?_eq_some_iff.mp hw).1
      rw [Option.some.inj (hw.symm.trans (hall w hlt))]
      rfl
    rw [h.stopped_eq, h.length_eq] at hcount
    omega
  constructor
  case issued => rw [h.issued, hlength, min_eq_right (by omega)]
  case failed =>
    intro w hw
    rw [h.failed w, hasStopped, hall w hw]
    rfl
  case handled =>
    intro i hi
    obtain ⟨⟨w, job⟩, hget⟩ : ∃ v, st.log[i]? = some v :=
      ⟨_, List.getElem?_eq_getElem (by omega : i < st.log.length)⟩
    obtain ⟨hw, hjob⟩ := h.fetched i _ hget
    rw [if_pos hi] at hjob
    obtain rfl : job = some i := hjob
    have hmem : (w, some i) ∈ st.log := h.mem_log_iff.mpr hget
    have hother : ∀ w', w' ≠ w → (w', some i) ∉ st.log := by
      intro w' hne hmem'
      have := Option.some.inj ((h.mem_log_iff.mp hmem').symm.trans hget)
      exact hne (Prod.mk.inj this).1
    -- the worker that fetched the index has performed its job
    refine ⟨w, hw, ?_, ?_, fun w' hne =>
      ⟨hother w' hne, fun hacted => hother w' hne (h.acted _ hacted)⟩⟩
    · -- the indices that were issued are distinct
      have hnodup : (st.log.filterMap Prod.snd).Nodup := by
        rw [h.issued]
        exact List.nodup_range
      have hle : st.log.count (w, some i) ≤ (st.log.filterMap Prod.snd).count i := by
        rw [List.count_filterMap, List.count_eq_countP]
        exact List.countP_mono_left fun v _ hv => by
          rw [eq_of_beq hv]
          exact beq_self_eq_true _
      have hone := List.nodup_iff_count_le_one.mp hnodup i
      have hpos := List.count_pos_iff.mpr hmem
      omega
    -- a stopped worker has no action left
    · have hdone := h.done w i hmem
      rwa [leftFor, hall w hw] at hdone

/-- The history of a pool along a schedule. -/
theorem history_run (hserves : Serves pop q total (total + n)) (jobs : ℕ → List (Action S))
    (schedule : List ℕ) (s : S) :
    History pop jobs q n total (run pop jobs schedule (init n q s))
      (performed pop jobs schedule (init n q s)) :=
  (history_init pop jobs q n total s).run hserves schedule

/-- The history of a pool with `m` steps remaining. -/
private def HistorySteps (pop : Q → Option ℕ × Q) (jobs : ℕ → List (Action S)) (q : Q)
    (n total : ℕ) (st : State Q S) (m : ℕ) : Prop :=
  (∃ trace, History pop jobs q n total st trace) ∧
    remaining jobs total st.log.length st.workers = m

private theorem HistorySteps.step (hserves : Serves pop q total (total + n)) {m : ℕ}
    (h : HistorySteps pop jobs q n total st m) (w : ℕ) :
    (Halted w st ∧ HistorySteps pop jobs q n total (WorkPool.step pop jobs w st) m) ∨
      ∃ m', m = m' + 1 ∧ HistorySteps pop jobs q n total (WorkPool.step pop jobs w st) m' := by
  obtain ⟨⟨trace, h⟩, rfl⟩ := h
  obtain ⟨h', ⟨hhalt, hrem⟩ | hrem⟩ := h.step hserves w
  · exact .inl ⟨hhalt, ⟨_, h'⟩, hrem⟩
  · exact .inr ⟨_, hrem.symm, ⟨_, h'⟩, rfl⟩

/-- After the join all workers have stopped, unless an action failed. -/
theorem execute_stopped (hserves : Serves pop q total (total + n)) (jobs : ℕ → List (Action S))
    (schedule : List ℕ) (s : S) (hs : (execute pop jobs n total schedule q s).shared ≠ none) :
    ∀ w < n, (execute pop jobs n total schedule q s).workers[w]? = some .stopped := by
  have hstart : HistorySteps pop jobs q n total (init n q s) (budget jobs n total) :=
    ⟨⟨[], history_init pop jobs q n total s⟩, remaining_init jobs total n q s⟩
  obtain ⟨m, hle, hrun⟩ := run_of_step (P := HistorySteps pop jobs q n total)
    (fun h w => h.step hserves w) hstart schedule
  obtain ⟨_, -, ⟨⟨_, h⟩, -⟩, hhalt⟩ := join_of_step (P := HistorySteps pop jobs q n total)
    (fun h w => h.step hserves w) n hrun hle
  -- the join is one more schedule
  have hexecute : execute pop jobs n total schedule q s =
      run pop jobs (joinSchedule n (budget jobs n total))
        (run pop jobs schedule (init n q s)) := List.foldl_append
  rw [hexecute] at hs ⊢
  intro w hw
  -- a worker that is halted has stopped, unless the pool has failed
  rcases hhalt w hw with hnone | hnone | hstop
  · exact absurd hnone hs
  · rw [List.getElem?_eq_getElem (h.length_eq.symm ▸ hw)] at hnone
    cases hnone
  · exact hstop

end WorkPool
