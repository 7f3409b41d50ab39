import Redcli.Buffers.Ownership

/-!
# The Steady State of the Pool

The purpose of the caches: a thread that keeps to small numbers of buffers goes to the system for
as many buffers as it ever holds at once, and for no more, and gives none of them back while it
runs. What the caches retain goes back when their threads exit.

## Main results

* `retained`: how many buffers the pool retains, and that nothing is lost in the end;
* `reserve_step`: a step keeps the books of a thread in balance;
* `steady_state`: the number of buffers that a thread obtains from the system.
-/

namespace Redcli

/-- The thread that takes a step. -/
def PoolEvent.thread : PoolEvent → Option ℕ
  | .spawn => none
  | .alloc i _ _ | .free i _ | .initializePool i _ _ | .clear i | .exit i | .advance i _ => some i

/-- Which kind of buffer a call in progress is about to obtain. -/
def CallPoint.kind : CallPoint → Option Bool
  | .loadPoolSize _ | .raiseLoad _ _ | .raiseExchange _ _ _ => some false
  | .newFromSystem _ _ big => some big
  | _ => none

/-- A call in progress neither obtains a normal buffer below a size nor lowers the preferred size
below it. -/
def CallPoint.AtLeast (size : UInt32) : CallPoint → Prop
  | .raiseLoad _ allocSize => size ≤ allocSize
  | .raiseExchange _ allocSize _ => size ≤ allocSize
  | .newFromSystem _ allocSize big => big = false → size ≤ allocSize
  | .testInitialized ts => size ≤ ts
  | .testSize ts => size ≤ ts
  | .storeSize ts _ => size ≤ ts
  | _ => True

namespace BufferPool

variable {s s' : BufferPool} {i : ℕ} {th : PoolThread}

/-! ## Threads that have exited -/

/-- Threads that have exited have nothing in their caches. -/
def ExitedEmpty (s : BufferPool) : Prop := ∀ th ∈ s.threads, th.exited = true → th.cached = []

/-- Only threads that run take steps. -/
theorem running_of_thread? (h : s.thread? i = some th) : th.exited = false := by
  simpa using (Option.filter_eq_some_iff.mp h).2

theorem running_of_idle? (h : s.idle? i = some th) : th.exited = false :=
  running_of_thread? (Option.filter_eq_some_iff.mp h).1

theorem point_of_idle? (h : s.idle? i = some th) : th.point = .idle := by
  simpa using (Option.filter_eq_some_iff.mp h).2

theorem ExitedEmpty.set (h : s.ExitedEmpty) {th' : PoolThread}
    (hthreads : s'.threads = s.threads.set i th') (hth' : th'.exited = true → th'.cached = []) :
    s'.ExitedEmpty := by
  intro t ht hexited
  rw [hthreads] at ht
  rcases List.mem_or_eq_of_mem_set ht with ht | rfl
  · exact h t ht hexited
  · exact hth' hexited

theorem exited_setStack (th : PoolThread) (big : Bool) (l : List ℕ) :
    (th.setStack big l).exited = th.exited := by
  cases big <;> rfl

theorem exitedEmpty_step (s : BufferPool) (e : PoolEvent) (s' : BufferPool) (h : s.ExitedEmpty)
    (hstep : s.step e = some s') : s'.ExitedEmpty := by
  -- a thread that runs before the step and behind it
  have hrunning : ∀ {th' : PoolThread}, th'.exited = false → th'.exited = true → th'.cached = [] :=
    fun hfalse htrue => absurd (hfalse.symm.trans htrue) Bool.false_ne_true
  cases e with
  | spawn =>
      obtain rfl := Option.some.inj hstep
      intro t ht hexited
      rcases List.mem_append.mp ht with ht | ht
      · exact h t ht hexited
      · obtain rfl := List.mem_singleton.mp ht
        rfl
  | alloc i size big =>
      obtain ⟨th, hidle, rfl⟩ := Option.map_eq_some_iff.mp hstep
      have hcache : ∀ missed, (s.allocFromCache i th size big missed).ExitedEmpty := by
        intro missed
        unfold BufferPool.allocFromCache
        rcases popReusable s.heap size (th.stack big) with ⟨_ | b, rest, tooSmall⟩
        · refine h.set rfl (hrunning ?_)
          exact (exited_setStack th big rest).trans (running_of_idle? hidle)
        · refine h.set rfl (hrunning ?_)
          exact (exited_setStack th big rest).trans (running_of_idle? hidle)
      cases big
      · exact hcache _
      · exact hcache _
  | free i buffer =>
      simp only [step] at hstep
      split_ifs at hstep
      obtain ⟨th, hidle, rfl⟩ := Option.map_eq_some_iff.mp hstep
      cases buffer with
      | none => exact h
      | some c =>
          refine h.set rfl (hrunning ?_)
          exact (exited_setStack _ _ _).trans (running_of_idle? hidle)
  | initializePool i stripWidth blockHeight =>
      obtain ⟨th, hidle, rfl⟩ := Option.map_eq_some_iff.mp hstep
      have hth := running_of_idle? hidle
      exact h.set rfl (hrunning hth)
  | clear i =>
      obtain ⟨th, hidle, rfl⟩ := Option.map_eq_some_iff.mp hstep
      have hth := running_of_idle? hidle
      exact h.set rfl (hrunning hth)
  | exit i =>
      obtain ⟨th, hidle, rfl⟩ := Option.map_eq_some_iff.mp hstep
      exact h.set rfl fun _ => rfl
  | advance i luck =>
      obtain ⟨th, hthread, hadvance⟩ := Option.bind_eq_some_iff.mp hstep
      have hth := running_of_thread? hthread
      rcases advance_cases hadvance with ⟨p, poolSize, flag, -, rfl⟩ |
        ⟨size, allocSize, big, -, rfl⟩
      · exact h.set rfl (hrunning hth)
      · exact h.set rfl (hrunning hth)

/-- The number of threads that run. -/
def running (s : BufferPool) : ℕ := s.threads.countP fun th => !th.exited

/-- The caches hold at most six buffers for each thread that runs. -/
theorem length_cached_le (howned : s.Owned) (hexited : s.ExitedEmpty) :
    (s.threads.flatMap PoolThread.cached).length ≤ 6 * s.running := by
  have hthreads : ∀ th ∈ s.threads, th.cached.length ≤ if !th.exited then 6 else 0 := by
    intro th ht
    cases hexit : th.exited with
    | true => simp [hexited th ht hexit]
    | false =>
        have hnormal := (howned.threads th ht).length_le false
        have hbig := (howned.threads th ht).length_le true
        show (th.normal ++ th.big).length ≤ 6
        rw [List.length_append]
        exact Nat.add_le_add hnormal hbig
  unfold running
  generalize s.threads = threads at hthreads
  induction threads with
  | nil => exact Nat.zero_le _
  | cons th threads ih =>
      have hhead := hthreads th List.mem_cons_self
      have htail := ih fun t ht => hthreads t (List.mem_cons_of_mem th ht)
      rw [List.flatMap_cons, List.length_append, List.countP_cons]
      split_ifs at hhead ⊢ <;> omega

/-- What the pool retains, in every state of every run: beside the buffers that clients hold, no
more than six for each thread that runs; and when the clients hold none and all threads have
exited, each buffer has gone back to the system, once. -/
theorem retained {events : List PoolEvent} (hrun : run events = some s) :
    s.heap.length ≤ s.deleted.length + s.held.length + 6 * s.running ∧
      (s.held = [] → (∀ th ∈ s.threads, th.exited = true) →
        s.deleted.Perm (List.range s.heap.length)) := by
  have howned := owned_of_run hrun
  have hexited : s.ExitedEmpty :=
    TransitionSystem.run_invariant exitedEmpty_step (fun _ ht => absurd ht List.not_mem_nil) hrun
  constructor
  · have hlength := howned.once.length_eq
    rw [List.length_range, places, List.length_append, List.length_append] at hlength
    have hcached := length_cached_le howned hexited
    omega
  · intro hheld hall
    have hcached : s.threads.flatMap PoolThread.cached = [] :=
      List.flatMap_eq_nil_iff.mpr fun th ht => hexited th ht (hall th ht)
    have honce := howned.once
    rwa [places, hheld, hcached, List.nil_append, List.append_nil] at honce

/-! ## The books of a thread -/

/-- The pool together with the books of one thread: which buffers it holds, the most that it ever
held at once, how many it obtained from the system, and how many it gave back. -/
structure Audit where
  pool : BufferPool
  own : List ℕ := []
  peak : ℕ := 0
  obtained : ℕ := 0
  gone : ℕ := 0
  deriving DecidableEq

/-- The buffers that a step returned. -/
def newlyReturned (s s' : BufferPool) : List ℕ :=
  (s'.returned.take (s'.returned.length - s.returned.length)).map AllocRecord.buffer

/-- Thread `me` keeps to less than five buffers of up to `size` bytes, and nobody else frees them.
Meanwhile the preferred size does not fall below `size`. -/
def Contract (me : ℕ) (size : UInt32) (own : List ℕ) : PoolEvent → Prop
  | .alloc i size' big => i = me → big = false ∧ size' ≤ size ∧ own.length < 4
  | .free i (some b) => i = me ↔ b ∈ own
  | .initializePool _ stripWidth blockHeight => size ≤ getMemoryBufferSize stripWidth blockHeight
  | .clear _ => False
  | .exit i => i ≠ me
  | _ => True

instance (me : ℕ) (size : UInt32) (own : List ℕ) (e : PoolEvent) :
    Decidable (Contract me size own e) := by
  unfold Contract
  split <;> infer_instance

/-- The books behind a step of the thread: a buffer that is freed is struck off, and one that is
returned is entered. -/
def Audit.record (a : Audit) (e : PoolEvent) (s' : BufferPool) : Audit :=
  let own :=
    match e with
    | .free _ (some b) => a.own.erase b
    | _ => newlyReturned a.pool s' ++ a.own
  { pool := s'
    own := own
    peak := max a.peak own.length
    obtained := a.obtained + (s'.heap.length - a.pool.heap.length)
    gone := a.gone + (s'.deleted.length - a.pool.deleted.length) }

/-- A step with the books of thread `me`. -/
def Audit.step (me : ℕ) (size : UInt32) (a : Audit) (e : PoolEvent) : Option Audit :=
  if Contract me size a.own e then
    (a.pool.step e).map fun s' =>
      if e.thread = some me then a.record e s' else { a with pool := s' }
  else none

/-- What the next step of a call can do, as long as the preferred size is not below `size`. -/
theorem advance_atLeast {size : UInt32} {luck : Bool} (hsize : size ≤ s.currentBufferSize)
    (hpoint : th.point.AtLeast size) (hstep : s.advance i th luck = some s') :
    (∃ p poolSize flag, p.AtLeast size ∧ (p.kind = none ∨ p.kind = th.point.kind) ∧
      size ≤ poolSize ∧
        s' = { s.goTo i th p with currentBufferSize := poolSize, initialized := flag }) ∨
    ∃ asked allocSize big, th.point = .newFromSystem asked allocSize big ∧
      s' = { s.goTo i th .idle with
        heap := s.heap ++ [{ bufferSize := allocSize, bigBuffer := big }]
        held := s.heap.length :: s.held
        returned := ⟨asked, big, s.heap.length⟩ :: s.returned } := by
  have hmoves : ∀ {p : CallPoint}, s.goTo i th p = s' → p.AtLeast size →
      (p.kind = none ∨ p.kind = th.point.kind) →
      ∃ p poolSize flag, p.AtLeast size ∧ (p.kind = none ∨ p.kind = th.point.kind) ∧
        size ≤ poolSize ∧
          s' = { s.goTo i th p with currentBufferSize := poolSize, initialized := flag } :=
    fun heq hp hkind => ⟨_, s.currentBufferSize, s.initialized, hp, hkind, hsize, heq.symm⟩
  unfold BufferPool.advance at hstep
  cases hcase : th.point with
  | idle =>
      rw [hcase] at hstep
      cases hstep
  | loadPoolSize asked =>
      rw [hcase] at hstep hmoves
      -- the larger one of the preferred size and what was asked for
      have hle : size ≤ if asked < s.currentBufferSize then s.currentBufferSize else asked := by
        split_ifs with hlt
        · exact hsize
        · exact UInt32.le_trans hsize (UInt32.not_lt.mp hlt)
      simp only at hstep
      generalize (if asked < s.currentBufferSize then s.currentBufferSize else asked) = allocSize
        at hle hstep
      split_ifs at hstep
      · exact .inl (hmoves (Option.some.inj hstep) hle (.inr rfl))
      · exact .inl (hmoves (Option.some.inj hstep) (fun _ => hle) (.inr rfl))
  | raiseLoad asked allocSize =>
      rw [hcase] at hstep hmoves hpoint
      simp only at hstep
      split_ifs at hstep
      · exact .inl (hmoves (Option.some.inj hstep) hpoint (.inr rfl))
      · exact .inl (hmoves (Option.some.inj hstep) (fun _ => hpoint) (.inr rfl))
  | raiseExchange asked allocSize cur =>
      rw [hcase] at hstep hmoves hpoint
      simp only at hstep
      split_ifs at hstep
      · -- the exchange has stored a size that is large enough
        exact .inl ⟨.newFromSystem asked allocSize false, allocSize, s.initialized, fun _ => hpoint,
          .inr rfl, hpoint, (Option.some.inj hstep).symm⟩
      · exact .inl (hmoves (Option.some.inj hstep) hpoint (.inr rfl))
      · exact .inl (hmoves (Option.some.inj hstep) (fun _ => hpoint) (.inr rfl))
  | newFromSystem asked allocSize big =>
      rw [hcase] at hstep hmoves
      simp only at hstep
      split_ifs at hstep
      · exact .inr ⟨asked, allocSize, big, rfl, (Option.some.inj hstep).symm⟩
      · exact .inl (hmoves (Option.some.inj hstep) trivial (.inl rfl))
  | testInitialized ts =>
      rw [hcase] at hstep hmoves hpoint
      simp only at hstep
      split_ifs at hstep
      · exact .inl (hmoves (Option.some.inj hstep) hpoint (.inl rfl))
      · exact .inl (hmoves (Option.some.inj hstep) hpoint (.inl rfl))
  | testSize ts =>
      rw [hcase] at hstep hmoves hpoint
      simp only at hstep
      split_ifs at hstep
      · exact .inl (hmoves (Option.some.inj hstep) trivial (.inl rfl))
      · exact .inl (hmoves (Option.some.inj hstep) hpoint (.inl rfl))
  | storeSize ts flag =>
      rw [hcase] at hstep hpoint
      exact .inl ⟨.storeInitialized flag, ts, s.initialized, trivial, .inl rfl, hpoint,
        (Option.some.inj hstep).symm⟩
  | storeInitialized flag =>
      rw [hcase] at hstep
      exact .inl ⟨.idle, s.currentBufferSize, flag, trivial, .inl rfl, hsize,
        (Option.some.inj hstep).symm⟩

/-- Thread `me` in the steady state: it has large enough buffers of the normal kind only, as many
as it obtained, and it has none in reserve when it is about to obtain one. -/
structure ThreadReserve (heap : List MemoryBuffer) (size : UInt32) (a : Audit) (th : PoolThread) :
    Prop where
  big : th.big = []
  large : ∀ b ∈ th.normal, size ≤ (headerOf heap b).bufferSize
  count : a.obtained = a.own.length + th.normal.length
  missing : ∀ big, th.point.kind = some big →
    big = false ∧ th.normal = [] ∧ a.own.length < 4

/-- The steady state of a pool. -/
structure Reserve (me : ℕ) (size : UInt32) (a : Audit) : Prop where
  owned : a.pool.Owned
  preferred : size ≤ a.pool.currentBufferSize
  points : ∀ th ∈ a.pool.threads, th.point.AtLeast size
  thread : ∃ th, a.pool.threads[me]? = some th ∧ ThreadReserve a.pool.heap size a th
  own : ∀ b ∈ a.own, b ∈ a.pool.held ∧ (headerOf a.pool.heap b).bigBuffer = false ∧
    size ≤ (headerOf a.pool.heap b).bufferSize
  nodup : a.own.Nodup
  peak : a.obtained = a.peak
  limit : a.peak ≤ 4
  gone : a.gone = 0

section

variable {me : ℕ} {size : UInt32} {a : Audit}

theorem Reserve.length_own_le (h : Reserve me size a) : a.own.length ≤ a.peak := by
  obtain ⟨th, -, hth⟩ := h.thread
  have hcount := hth.count
  have hpeak := h.peak
  omega

/-- The buffers of thread `me` were obtained from the system. -/
theorem Reserve.own_lt (h : Reserve me size a) {b : ℕ} (hb : b ∈ a.own) :
    b < a.pool.heap.length :=
  h.owned.lt_of_mem (List.mem_append_left _ (List.mem_append_left _ (h.own b hb).1))

/-- A thread that is replaced by one at a harmless point. -/
theorem Reserve.points_set (h : Reserve me size a) {th' : PoolThread}
    (hth' : th'.point.AtLeast size) : ∀ t ∈ a.pool.threads.set i th', t.point.AtLeast size := by
  intro t ht
  rcases List.mem_or_eq_of_mem_set ht with ht | rfl
  · exact h.points t ht
  · exact hth'

/-- What the others do leaves the books of thread `me` as they are. -/
theorem Reserve.frame (h : Reserve me size a) (howned : s'.Owned)
    (hpreferred : size ≤ s'.currentBufferSize) (hpoints : ∀ th ∈ s'.threads, th.point.AtLeast size)
    (hthread : s'.threads[me]? = a.pool.threads[me]?)
    (hheap : ∃ more, s'.heap = a.pool.heap ++ more) (hheld : ∀ b ∈ a.own, b ∈ s'.held) :
    Reserve me size { a with pool := s' } := by
  obtain ⟨more, hheap⟩ := hheap
  obtain ⟨th, hi, hth⟩ := h.thread
  refine ⟨howned, hpreferred, hpoints, ⟨th, hthread.trans hi, ?_⟩, fun b hb => ?_, h.nodup, h.peak,
    h.limit, h.gone⟩
  · refine ⟨hth.big, fun b hb => ?_, hth.count, hth.missing⟩
    have hlt : b < a.pool.heap.length := by
      refine h.owned.lt_of_mem (List.mem_append_right _ (List.mem_flatMap.mpr ⟨th, ?_, ?_⟩))
      · exact List.mem_of_getElem? hi
      · exact List.mem_append_left _ hb
    show size ≤ (headerOf s'.heap b).bufferSize
    rw [hheap, headerOf_append hlt]
    exact hth.large b hb
  · show b ∈ s'.held ∧ (headerOf s'.heap b).bigBuffer = false ∧
      size ≤ (headerOf s'.heap b).bufferSize
    rw [hheap, headerOf_append (h.own_lt hb)]
    exact ⟨hheld b hb, (h.own b hb).2⟩

/-- A step of another thread. -/
theorem Reserve.other (h : Reserve me size a) {e : PoolEvent}
    (hcontract : Contract me size a.own e) (hother : e.thread ≠ some me)
    (hstep : a.pool.step e = some s') : Reserve me size { a with pool := s' } := by
  have howned := owned_step _ e s' h.owned hstep
  have hne : ∀ {i : ℕ}, some i ≠ some me → i ≠ me := fun hi heq => hi (congrArg some heq)
  have hset : ∀ {i : ℕ} {th' : PoolThread}, i ≠ me →
      (a.pool.threads.set i th')[me]? = a.pool.threads[me]? :=
    fun hi => List.getElem?_set_ne hi
  have hsame : ∃ more, a.pool.heap = a.pool.heap ++ more := ⟨[], (List.append_nil _).symm⟩
  have hheld : ∀ b ∈ a.own, b ∈ a.pool.held := fun b hb => (h.own b hb).1
  cases e with
  | spawn =>
      obtain rfl := Option.some.inj hstep
      obtain ⟨th, hi, -⟩ := h.thread
      refine h.frame howned h.preferred (fun t ht => ?_) ?_ hsame hheld
      · rcases List.mem_append.mp ht with ht | ht
        · exact h.points t ht
        · obtain rfl := List.mem_singleton.mp ht
          trivial
      · exact List.getElem?_append_left (List.getElem?_eq_some_iff.mp hi).1
  | alloc i asked big =>
      obtain ⟨th, hidle, rfl⟩ := Option.map_eq_some_iff.mp hstep
      have hi := hne hother
      have hcache : ∀ missed : CallPoint, missed.AtLeast size →
          (a.pool.allocFromCache i th asked big missed).Owned →
            Reserve me size { a with pool := a.pool.allocFromCache i th asked big missed } := by
        intro missed hmissed
        have hpoint := h.points th (List.mem_of_getElem? (getElem?_of_idle? hidle))
        unfold BufferPool.allocFromCache
        rcases popReusable a.pool.heap asked (th.stack big) with ⟨_ | b, rest, tooSmall⟩
        · intro howned
          exact h.frame howned h.preferred (h.points_set hmissed) (hset hi) hsame hheld
        · intro howned
          refine h.frame howned h.preferred (h.points_set ?_) (hset hi) hsame
            fun c hc => List.mem_cons_of_mem b (hheld c hc)
          rwa [PoolThread.point_setStack]
      cases big
      · exact hcache _ trivial howned
      · exact hcache _ (fun hfalse => absurd hfalse.symm Bool.false_ne_true) howned
  | free i buffer =>
      simp only [BufferPool.step] at hstep
      split_ifs at hstep
      obtain ⟨th, hidle, rfl⟩ := Option.map_eq_some_iff.mp hstep
      cases buffer with
      | none => exact h
      | some c =>
          have hi := hne hother
          refine h.frame howned h.preferred (h.points_set ?_) (hset hi) hsame fun b hb => ?_
          · rw [PoolThread.point_setStack]
            exact h.points th (List.mem_of_getElem? (getElem?_of_idle? hidle))
          · -- the buffer that is freed is not one of thread `me`
            have hbc : b ≠ c := fun heq => hi (hcontract.mpr (heq ▸ hb))
            exact (List.mem_erase_of_ne hbc).mpr (hheld b hb)
  | initializePool i stripWidth blockHeight =>
      obtain ⟨th, hidle, rfl⟩ := Option.map_eq_some_iff.mp hstep
      exact h.frame howned h.preferred (h.points_set hcontract) (hset (hne hother)) hsame hheld
  | clear i => exact hcontract.elim
  | exit i =>
      obtain ⟨th, hidle, rfl⟩ := Option.map_eq_some_iff.mp hstep
      exact h.frame howned h.preferred (h.points_set trivial) (hset (hne hother)) hsame hheld
  | advance i luck =>
      obtain ⟨th, hthread, hadvance⟩ := Option.bind_eq_some_iff.mp hstep
      have hpoint := h.points th (List.mem_of_getElem? (getElem?_of_thread? hthread))
      rcases advance_atLeast h.preferred hpoint hadvance with
        ⟨p, poolSize, flag, hp, -, hpoolSize, rfl⟩ | ⟨asked, allocSize, big, -, rfl⟩
      · exact h.frame howned hpoolSize (h.points_set hp) (hset (hne hother)) hsame hheld
      · exact h.frame howned h.preferred (h.points_set trivial) (hset (hne hother)) ⟨_, rfl⟩
          fun b hb => List.mem_cons_of_mem _ (hheld b hb)

theorem newlyReturned_cons {r : AllocRecord} (hr : s'.returned = r :: s.returned) :
    newlyReturned s s' = [r.buffer] := by
  rw [newlyReturned, hr, List.length_cons, Nat.add_sub_cancel_left]
  rfl

theorem Audit.own_record {e : PoolEvent} (he : ∀ i b, e ≠ .free i (some b)) :
    (a.record e s').own = newlyReturned a.pool s' ++ a.own := by
  cases e with
  | free i buffer =>
      cases buffer with
      | none => rfl
      | some b => exact absurd rfl (he i b)
  | _ => rfl

/-- A step that moves no buffer changes nothing in the books. -/
theorem Reserve.keep (h : Reserve me size a) {e : PoolEvent}
    (he : ∀ i b, e ≠ .free i (some b)) (hheap : s'.heap = a.pool.heap)
    (hdeleted : s'.deleted = a.pool.deleted) (hreturned : s'.returned = a.pool.returned)
    (h' : Reserve me size { a with pool := s' }) : Reserve me size (a.record e s') := by
  have hown : (a.record e s').own = a.own := by
    rw [Audit.own_record he, newlyReturned, hreturned, Nat.sub_self, List.take_zero,
      List.map_nil, List.nil_append]
  have hpeak : (a.record e s').peak = a.peak := by
    show max a.peak (a.record e s').own.length = a.peak
    rw [hown]
    exact max_eq_left h.length_own_le
  have hrecord : a.record e s' = { a with pool := s' } := by
    show Audit.mk s' (a.record e s').own (a.record e s').peak _ _ = _
    rw [hown, hpeak, hheap, hdeleted, Nat.sub_self, Nat.sub_self]
    rfl
  rwa [hrecord]

/-- Thread `me` goes on to another point of a call. -/
theorem Reserve.goTo (h : Reserve me size a) (hi : a.pool.threads[me]? = some th) {p : CallPoint}
    {poolSize : UInt32} {flag : Bool} (hpoolSize : size ≤ poolSize) (hp : p.AtLeast size)
    (hkind : ∀ big, p.kind = some big → big = false ∧ th.normal = [] ∧ a.own.length < 4)
    (howned : Owned { a.pool.goTo me th p with
      currentBufferSize := poolSize, initialized := flag }) :
    Reserve me size { a with pool := { a.pool.goTo me th p with
      currentBufferSize := poolSize, initialized := flag } } := by
  obtain ⟨th₁, hi₁, hth⟩ := h.thread
  obtain rfl : th₁ = th := Option.some.inj (hi₁.symm.trans hi)
  refine ⟨howned, hpoolSize, h.points_set hp, ⟨{ th₁ with point := p }, ?_, ?_⟩, h.own, h.nodup,
    h.peak, h.limit, h.gone⟩
  · exact List.getElem?_set_self (List.getElem?_eq_some_iff.mp hi).1
  · exact ⟨hth.big, hth.large, hth.count, hkind⟩

/-- Thread `me` obtains a buffer, since it has none in reserve. -/
theorem Reserve.obtain (h : Reserve me size a) (hi : a.pool.threads[me]? = some th)
    {asked allocSize : UInt32} {big : Bool} (hpoint : th.point = .newFromSystem asked allocSize big)
    {e : PoolEvent} (he : ∀ i b, e ≠ .free i (some b)) :
    Reserve me size (a.record e { a.pool.goTo me th .idle with
      heap := a.pool.heap ++ [{ bufferSize := allocSize, bigBuffer := big }]
      held := a.pool.heap.length :: a.pool.held
      returned := ⟨asked, big, a.pool.heap.length⟩ :: a.pool.returned }) := by
  have howned := h.owned.obtain hi hpoint
  obtain ⟨th₁, hi₁, hth⟩ := h.thread
  obtain rfl : th₁ = th := Option.some.inj (hi₁.symm.trans hi)
  obtain ⟨rfl, hnormal, hroom⟩ := hth.missing big (by rw [hpoint]; rfl)
  have hallocSize : size ≤ allocSize := by
    have := h.points th₁ (List.mem_of_getElem? hi)
    rw [hpoint] at this
    exact this rfl
  generalize hs' : ({ a.pool.goTo me th₁ .idle with
    heap := a.pool.heap ++ [{ bufferSize := allocSize, bigBuffer := false }]
    held := a.pool.heap.length :: a.pool.held
    returned := ⟨asked, false, a.pool.heap.length⟩ :: a.pool.returned } : BufferPool) = s'
      at howned ⊢
  have hown : (a.record e s').own = a.pool.heap.length :: a.own := by
    rw [Audit.own_record he, newlyReturned_cons (by rw [← hs']), List.singleton_append]
  -- all that was obtained is in the hands of the thread, and is the most it ever held
  have hcount := hth.count
  have hpeak := h.peak
  rw [hnormal, List.length_nil, Nat.add_zero] at hcount
  have hpeak' : (a.record e s').peak = a.own.length + 1 := by
    show max a.peak (a.record e s').own.length = _
    rw [hown, List.length_cons]
    omega
  have hobtained : (a.record e s').obtained = a.own.length + 1 := by
    show a.obtained + (s'.heap.length - a.pool.heap.length) = _
    rw [← hs', List.length_append, List.length_singleton]
    omega
  subst hs'
  refine ⟨howned, h.preferred, h.points_set trivial, ⟨{ th₁ with point := .idle }, ?_, ?_⟩,
    fun b hb => ?_, ?_, hobtained.trans hpeak'.symm, ?_, ?_⟩
  · exact List.getElem?_set_self (List.getElem?_eq_some_iff.mp hi).1
  · refine ⟨hth.big, fun b hb => ?_, ?_, fun big hbig => ?_⟩
    · exact absurd (hnormal ▸ hb) List.not_mem_nil
    · show (a.record e _).obtained = (a.record e _).own.length + th₁.normal.length
      rw [hobtained, hown, hnormal]
      rfl
    · cases hbig
  · rw [hown] at hb
    rcases List.mem_cons.mp hb with rfl | hb
    · refine ⟨List.mem_cons_self, ?_⟩
      show (headerOf (a.pool.heap ++ [_]) a.pool.heap.length).bigBuffer = false ∧
        size ≤ (headerOf (a.pool.heap ++ [_]) a.pool.heap.length).bufferSize
      rw [headerOf, List.getD_eq_getElem?_getD, List.getElem?_concat_length]
      exact ⟨rfl, hallocSize⟩
    · refine ⟨List.mem_cons_of_mem _ (h.own b hb).1, ?_⟩
      show (headerOf (a.pool.heap ++ _) b).bigBuffer = false ∧
        size ≤ (headerOf (a.pool.heap ++ _) b).bufferSize
      rw [headerOf_append (h.own_lt hb)]
      exact (h.own b hb).2
  · rw [hown, List.nodup_cons]
    exact ⟨fun hmem => (h.own_lt hmem).false, h.nodup⟩
  · rw [hpeak']
    exact hroom
  · show a.gone + (a.pool.deleted.length - a.pool.deleted.length) = 0
    rw [Nat.sub_self, h.gone]

/-- An allocation of thread `me`: a buffer from its reserve, or a call that goes on. -/
theorem Reserve.alloc (h : Reserve me size a) (hidle : a.pool.idle? me = some th)
    {asked : UInt32} (hasked : asked ≤ size) (hroom : a.own.length < 4) {e : PoolEvent}
    (he : ∀ i b, e ≠ .free i (some b))
    (howned : (a.pool.normalAlloc me th asked).Owned) :
    Reserve me size (a.record e (a.pool.normalAlloc me th asked)) := by
  have hi := getElem?_of_idle? hidle
  obtain ⟨th₁, hi₁, hth⟩ := h.thread
  obtain rfl : th₁ = th := Option.some.inj (hi₁.symm.trans hi)
  have hself : ∀ th', (a.pool.threads.set me th')[me]? = some th' := fun th' =>
    List.getElem?_set_self (List.getElem?_eq_some_iff.mp hi).1
  have hcount := hth.count
  have hpeak := h.peak
  cases hnormal : th₁.normal with
  | nil =>
      -- nothing in reserve
      have hsame : th₁.setStack false [] = th₁ := by
        rw [← hnormal]
        rfl
      have hmiss : a.pool.normalAlloc me th₁ asked = a.pool.goTo me th₁ (.loadPoolSize asked) := by
        have hstack : th₁.stack false = [] := hnormal
        unfold normalAlloc allocFromCache
        rw [hstack]
        show ({ a.pool.goTo me (th₁.setStack false []) (.loadPoolSize asked) with
          deleted := [] ++ a.pool.deleted } : BufferPool) = _
        rw [hsame, List.nil_append]
        rfl
      rw [hmiss] at howned ⊢
      refine h.keep he rfl rfl rfl ?_
      refine h.goTo hi h.preferred trivial (fun big hbig => ?_) howned
      exact ⟨(Option.some.inj hbig).symm, hnormal, hroom⟩
  | cons b rest =>
      have hlarge : asked ≤ (headerOf a.pool.heap b).bufferSize :=
        UInt32.le_trans hasked (hth.large b (hnormal ▸ List.mem_cons_self))
      have hhit : a.pool.normalAlloc me th₁ asked =
          { a.pool.setThread me { th₁ with normal := rest } with
            held := b :: a.pool.held
            returned := ⟨asked, false, b⟩ :: a.pool.returned } := by
        have hstack : th₁.stack false = b :: rest := hnormal
        unfold normalAlloc allocFromCache
        rw [hstack, popReusable, if_pos hlarge]
        rfl
      rw [hhit] at howned ⊢
      generalize hs' : ({ a.pool.setThread me { th₁ with normal := rest } with
        held := b :: a.pool.held
        returned := ⟨asked, false, b⟩ :: a.pool.returned } : BufferPool) = s' at howned ⊢
      have hown : (a.record e s').own = b :: a.own := by
        rw [Audit.own_record he, newlyReturned_cons (by rw [← hs']), List.singleton_append]
      rw [hnormal, List.length_cons] at hcount
      have hpeak' : (a.record e s').peak = a.peak := by
        show max a.peak (a.record e s').own.length = _
        rw [hown, List.length_cons]
        omega
      have hobtained : (a.record e s').obtained = a.obtained := by
        show a.obtained + (s'.heap.length - a.pool.heap.length) = _
        rw [← hs']
        exact congrArg (a.obtained + ·) (Nat.sub_self _)
      subst hs'
      refine ⟨howned, h.preferred, h.points_set ?_, ⟨_, hself _, ?_⟩, fun c hc => ?_,
        ?_, hobtained.trans (hpeak.trans hpeak'.symm), hpeak'.le.trans h.limit, ?_⟩
      · exact h.points th₁ (List.mem_of_getElem? hi)
      · refine ⟨hth.big, fun c hc => ?_, ?_, fun big hbig => ?_⟩
        · exact hth.large c (hnormal ▸ List.mem_cons_of_mem b hc)
        · rw [hobtained, hown, List.length_cons]
          show _ = _ + rest.length
          omega
        · have hkind : th₁.point.kind = some big := hbig
          rw [point_of_idle? hidle] at hkind
          cases hkind
      · rw [hown] at hc
        rcases List.mem_cons.mp hc with rfl | hc
        · refine ⟨List.mem_cons_self, ?_, hth.large c (hnormal ▸ List.mem_cons_self)⟩
          refine (h.owned.threads th₁ (List.mem_of_getElem? hi)).kind false c ?_
          show c ∈ th₁.normal
          rw [hnormal]
          exact List.mem_cons_self
        · exact ⟨List.mem_cons_of_mem b (h.own c hc).1, (h.own c hc).2⟩
      · -- what comes out of the cache was in nobody's hands
        have hnodup := howned.once.nodup_iff.mpr List.nodup_range
        rw [places, List.append_assoc] at hnodup
        have hheld : (b :: a.pool.held).Nodup := (List.nodup_append.mp hnodup).1
        rw [hown, List.nodup_cons]
        exact ⟨fun hmem => (List.nodup_cons.mp hheld).1 (h.own b hmem).1, h.nodup⟩
      · show a.gone + (a.pool.deleted.length - a.pool.deleted.length) = 0
        rw [Nat.sub_self, h.gone]

/-- A buffer that thread `me` frees goes to its reserve. -/
theorem Reserve.free (h : Reserve me size a) (hidle : a.pool.idle? me = some th) {c : ℕ}
    (hc : c ∈ a.own) (howned : (a.pool.free me th (some c)).Owned) :
    Reserve me size (a.record (.free me (some c)) (a.pool.free me th (some c))) := by
  have hi := getElem?_of_idle? hidle
  obtain ⟨th₁, hi₁, hth⟩ := h.thread
  obtain rfl : th₁ = th := Option.some.inj (hi₁.symm.trans hi)
  have hcount := hth.count
  have hpeak := h.peak
  have hlimit := h.limit
  have hpos : 0 < a.own.length := List.length_pos_of_mem hc
  -- there is room in the cache, since the thread has obtained four buffers at most
  have hroom : th₁.normal.length < 4 := by omega
  have hpush : a.pool.free me th₁ (some c) =
      { a.pool.setThread me { th₁ with normal := c :: th₁.normal } with
        held := a.pool.held.erase c } := by
    unfold BufferPool.free
    simp only [(h.own c hc).2.1, pushOrDelete]
    rw [if_pos (show (th₁.stack false).length < cacheLimit false from hroom)]
    rfl
  rw [hpush] at howned ⊢
  have herase : (a.own.erase c).length = a.own.length - 1 := List.length_erase_of_mem hc
  have hpeak' : max a.peak (a.own.erase c).length = a.peak := by omega
  refine ⟨howned, h.preferred, h.points_set ?_, ⟨_, List.getElem?_set_self
    (List.getElem?_eq_some_iff.mp hi).1, ?_⟩, fun b hb => ?_, h.nodup.erase c, ?_, ?_, ?_⟩
  · exact h.points th₁ (List.mem_of_getElem? hi)
  · refine ⟨hth.big, fun b hb => ?_, ?_, fun big hbig => ?_⟩
    · rcases List.mem_cons.mp hb with rfl | hb
      · exact (h.own b hc).2.2
      · exact hth.large b hb
    · show a.obtained + (a.pool.heap.length - a.pool.heap.length) =
        (a.own.erase c).length + (c :: th₁.normal).length
      rw [herase, List.length_cons]
      omega
    · have hkind : th₁.point.kind = some big := hbig
      rw [point_of_idle? hidle] at hkind
      cases hkind
  · have hb' : b ∈ a.own := List.mem_of_mem_erase hb
    have hne : b ≠ c := fun heq => h.nodup.not_mem_erase (heq ▸ hb)
    exact ⟨(List.mem_erase_of_ne hne).mpr (h.own b hb').1, (h.own b hb').2⟩
  · show a.obtained + (a.pool.heap.length - a.pool.heap.length) =
      max a.peak (a.own.erase c).length
    omega
  · show max a.peak (a.own.erase c).length ≤ 4
    omega
  · show a.gone + (a.pool.deleted.length - a.pool.deleted.length) = 0
    rw [Nat.sub_self, h.gone]

/-- A step of thread `me`. -/
theorem Reserve.mine (h : Reserve me size a) {e : PoolEvent} (hcontract : Contract me size a.own e)
    (hmine : e.thread = some me) (hstep : a.pool.step e = some s') :
    Reserve me size (a.record e s') := by
  have howned := owned_step _ e s' h.owned hstep
  cases e with
  | spawn => cases hmine
  | alloc i asked big =>
      obtain rfl := Option.some.inj hmine
      obtain ⟨rfl, hasked, hroom⟩ := hcontract rfl
      obtain ⟨th, hidle, rfl⟩ := Option.map_eq_some_iff.mp hstep
      exact h.alloc hidle hasked hroom (fun _ _ heq => by cases heq) howned
  | free i buffer =>
      obtain rfl := Option.some.inj hmine
      simp only [BufferPool.step] at hstep
      split_ifs at hstep
      obtain ⟨th, hidle, rfl⟩ := Option.map_eq_some_iff.mp hstep
      cases buffer with
      | none => exact h.keep (fun _ _ heq => by cases heq) rfl rfl rfl h
      | some c => exact h.free hidle (hcontract.mp rfl) howned
  | initializePool i stripWidth blockHeight =>
      obtain rfl := Option.some.inj hmine
      obtain ⟨th, hidle, rfl⟩ := Option.map_eq_some_iff.mp hstep
      refine h.keep (fun _ _ heq => by cases heq) rfl rfl rfl ?_
      exact h.goTo (getElem?_of_idle? hidle) h.preferred hcontract (fun _ hkind => by cases hkind)
        howned
  | clear i => exact hcontract.elim
  | exit i => exact absurd (Option.some.inj hmine) hcontract
  | advance i luck =>
      obtain rfl := Option.some.inj hmine
      obtain ⟨th, hthread, hadvance⟩ := Option.bind_eq_some_iff.mp hstep
      have hi := getElem?_of_thread? hthread
      obtain ⟨th₁, hi₁, hth⟩ := h.thread
      obtain rfl : th₁ = th := Option.some.inj (hi₁.symm.trans hi)
      have hpoint := h.points th₁ (List.mem_of_getElem? hi)
      rcases advance_atLeast h.preferred hpoint hadvance with
        ⟨p, poolSize, flag, hp, hkind, hpoolSize, rfl⟩ | ⟨asked, allocSize, big, hobtains, rfl⟩
      · refine h.keep (fun _ _ heq => by cases heq) rfl rfl rfl ?_
        refine h.goTo hi hpoolSize hp (fun big hbig => ?_) howned
        -- a call obtains what it was called for
        rcases hkind with hnone | hsame
        · cases hnone.symm.trans hbig
        · exact hth.missing big (hsame.symm.trans hbig)
      · exact h.obtain hi hobtains fun _ _ heq => by cases heq

/-- A step keeps the books in balance. -/
theorem reserve_step (a : Audit) (e : PoolEvent) (a' : Audit) (h : Reserve me size a)
    (hstep : a.step me size e = some a') : Reserve me size a' := by
  unfold Audit.step at hstep
  by_cases hcontract : Contract me size a.own e
  · rw [if_pos hcontract] at hstep
    obtain ⟨s', hpool, rfl⟩ := Option.map_eq_some_iff.mp hstep
    split_ifs with hmine
    · exact h.mine hcontract hmine hpool
    · exact h.other hcontract hmine hpool
  · rw [if_neg hcontract] at hstep
    cases hstep

end

/-- A thread that starts on an idle pool is in the steady state. -/
theorem reserve_spawn {size : UInt32} (howned : s.Owned)
    (hidle : ∀ th ∈ s.threads, th.point = .idle) (hsize : size ≤ s.currentBufferSize) :
    Reserve s.threads.length size { pool := { s with threads := s.threads ++ [{}] } } := by
  refine ⟨owned_step s .spawn _ howned rfl, hsize, fun t ht => ?_, ⟨{}, ?_, ?_⟩,
    fun b hb => absurd hb List.not_mem_nil, List.nodup_nil, rfl, Nat.zero_le 4, rfl⟩
  · rcases List.mem_append.mp ht with ht | ht
    · rw [hidle t ht]
      trivial
    · obtain rfl := List.mem_singleton.mp ht
      trivial
  · exact List.getElem?_concat_length
  · exact ⟨rfl, fun b hb => absurd hb List.not_mem_nil, rfl, fun big hbig => by cases hbig⟩

/-- A thread that starts on an idle pool, and holds no more than four buffers at once, none of them
larger than the preferred size, obtains as many buffers from the system as it ever holds at once:
all other calls are served by its cache. It gives no buffer back to the system while it runs. The
other threads may do whatever they like, but free its buffers or lower the preferred size. -/
theorem steady_state {before after : List PoolEvent} {size : UInt32} {a : Audit}
    (hbefore : run before = some s) (hidle : ∀ th ∈ s.threads, th.point = .idle)
    (hsize : size ≤ s.currentBufferSize)
    (hafter : TransitionSystem.run (Audit.step s.threads.length size) { pool := s }
      (.spawn :: after) = some a) :
    a.obtained = a.peak ∧ a.peak ≤ 4 ∧ a.gone = 0 := by
  rw [TransitionSystem.run_cons] at hafter
  -- the first step starts the thread
  have hspawn : Audit.step s.threads.length size { pool := s } .spawn =
      some { pool := { s with threads := s.threads ++ [{}] } } := rfl
  rw [hspawn, Option.bind_some] at hafter
  have hreserve := TransitionSystem.run_invariant reserve_step
    (reserve_spawn (owned_of_run hbefore) hidle hsize) hafter
  exact ⟨hreserve.peak, hreserve.limit, hreserve.gone⟩

/-- The main thread initializes the pool. -/
def initializePool128 : List PoolEvent :=
  [.spawn, .initializePool 0 512 2, .advance 0 true, .advance 0 true, .advance 0 true]

/-- The pool behind it. -/
def pool128 : BufferPool := { currentBufferSize := 128, initialized := true, threads := [{}] }

/-- A worker takes two buffers, gives them back, and takes them again. -/
def workerTwice : List PoolEvent :=
  [.alloc 1 100 false, .advance 1 true, .advance 1 true, .alloc 1 128 false, .advance 1 true,
    .advance 1 true, .free 1 (some 0), .free 1 (some 1), .alloc 1 64 false, .alloc 1 128 false]

/-- The worker has obtained two buffers for four calls. -/
theorem steady_state_workerTwice :
    ∃ a, TransitionSystem.run (Audit.step 1 128) { pool := pool128 } (.spawn :: workerTwice) =
        some a ∧ a.pool.returned.length = 4 ∧ a.obtained = 2 ∧
      a.obtained = a.peak ∧ a.peak ≤ 4 ∧ a.gone = 0 := by
  have hbooks : (TransitionSystem.run (Audit.step 1 128) { pool := pool128 }
      (.spawn :: workerTwice)).map (fun a => (a.pool.returned.length, a.obtained)) =
        some (4, 2) := by decide
  obtain ⟨a, hrun, hpair⟩ := Option.map_eq_some_iff.mp hbooks
  obtain ⟨hreturned, hobtained⟩ := Prod.mk.inj hpair
  refine ⟨a, hrun, hreturned, hobtained, ?_⟩
  have hinit : run initializePool128 = some pool128 := by decide
  exact steady_state hinit (by decide) (by decide) hrun

/-- A worker takes a buffer and gives it back; then both threads exit. -/
def workerExits : List PoolEvent :=
  initializePool128 ++ [.spawn, .alloc 1 100 false, .advance 1 true, .advance 1 true,
    .free 1 (some 0), .exit 1, .exit 0]

/-- Nothing is retained in the end. -/
theorem retained_workerExits :
    ∃ s, run workerExits = some s ∧ s.heap.length = 1 ∧
      s.deleted.Perm (List.range s.heap.length) := by
  have hfinal : (run workerExits).map (fun s => (s.heap.length, s.held,
      s.threads.all PoolThread.exited)) = some (1, [], true) := by decide
  obtain ⟨s, hrun, htriple⟩ := Option.map_eq_some_iff.mp hfinal
  obtain ⟨hheap, hheld, hexited⟩ : s.heap.length = 1 ∧ s.held = [] ∧
      s.threads.all PoolThread.exited = true := by
    simpa only [Prod.mk.injEq] using htriple
  exact ⟨s, hrun, hheap, (retained hrun).2 hheld (List.all_eq_true.mp hexited)⟩

end BufferPool

end Redcli
