import Redcli.Buffers.Ownership
import Redcli.Support.SharedMaximum

/-!
# The Preferred Size

`atomic_raise_size`: the preferred size of the pool is a shared maximum. A call of `normal_alloc`
that misses the cache of its thread is a request, and its first load of the preferred size, in
front of `atomic_raise_size`, is one more load of the loop.

## Main results

* `matched_step`: every step of the pool but those of `initialize` and `clear` is matched by the
  steps of a shared maximum;
* `raises_kept`: in every run without `initialize` and `clear`, the preferred size never decreases,
  is large enough for every call that has returned, and is in the end the greatest size that was
  asked for.
-/

namespace Redcli

open SharedMaximum (requests)
open TransitionSystem (trace)

/-- Where a call stands in raising the preferred size. -/
def CallPoint.raisePhase : CallPoint → SharedMaximum.Phase ℕ
  | .loadPoolSize size => .load size.toNat
  | .raiseLoad _ allocSize => .load allocSize.toNat
  | .raiseExchange _ allocSize cur => .exchange allocSize.toNat cur.toNat
  | _ => .idle

/-- A point of a call of `initialize` or `clear`. -/
def CallPoint.Resets : CallPoint → Prop
  | .testInitialized _ => True
  | .testSize _ => True
  | .storeSize _ _ => True
  | .storeInitialized _ => True
  | _ => False

/-- A call of `initialize` or `clear`. -/
def PoolEvent.Resets : PoolEvent → Prop
  | .initializePool _ _ _ => True
  | .clear _ => True
  | _ => False

namespace BufferPool

/-- The preferred size, with the calls that raise it. -/
def sharedMaximum (s : BufferPool) : SharedMaximum.State ℕ where
  value := s.currentBufferSize.toNat
  phases := s.threads.map fun th => th.point.raisePhase

/-- The size that a call of `normal_alloc` asks for if it misses the cache, with the thread. -/
def missed (s : BufferPool) : PoolEvent → List (ℕ × ℕ)
  | .alloc i size false =>
      (s.idle? i).elim [] fun th =>
        if (popReusable s.heap size (th.stack false)).1 = none then [(i, size.toNat)] else []
  | _ => []

/-- No thread is in `initialize` or `clear`. -/
def Quiet (s : BufferPool) : Prop := ∀ th ∈ s.threads, ¬ th.point.Resets

/-- A step is matched by the steps of a shared maximum, which request `sizes`, and nobody gets into
`initialize` or `clear`. -/
def Matched (s : BufferPool) (sizes : List (ℕ × ℕ)) (s' : BufferPool) : Prop :=
  s'.Quiet ∧ ∃ events, TransitionSystem.run SharedMaximum.step s.sharedMaximum events =
    some s'.sharedMaximum ∧ trace SharedMaximum.step requests s.sharedMaximum events = sizes

variable {s s' : BufferPool} {i : ℕ} {th th' : PoolThread}

theorem Quiet.setThread (h : s.Quiet) (hp : ¬ th'.point.Resets) : (s.setThread i th').Quiet := by
  intro t ht
  rcases List.mem_or_eq_of_mem_set ht with ht | rfl
  · exact h t ht
  · exact hp

/-- The phase of a thread. -/
theorem getElem?_phases (hi : s.threads[i]? = some th) :
    s.sharedMaximum.phases[i]? = some th.point.raisePhase := by
  rw [sharedMaximum, List.getElem?_map, hi, Option.map_some]

/-- A thread that goes on. -/
theorem sharedMaximum_setThread (s : BufferPool) (i : ℕ) (th' : PoolThread) :
    (s.setThread i th').sharedMaximum = s.sharedMaximum.goTo i th'.point.raisePhase := by
  simp [sharedMaximum, setThread, SharedMaximum.State.goTo, List.map_set]

/-- A step that does not change where a thread stands in raising the preferred size. -/
theorem Matched.same (h : s.Quiet) (hi : s.threads[i]? = some th) (th' : PoolThread)
    (hp : ¬ th'.point.Resets) (hphase : th'.point.raisePhase = th.point.raisePhase) :
    s.Matched [] (s.setThread i th') := by
  refine ⟨h.setThread hp, [], ?_, rfl⟩
  have hlt := (List.getElem?_eq_some_iff.mp (getElem?_phases hi)).1
  rw [TransitionSystem.run_nil, sharedMaximum_setThread, hphase, SharedMaximum.State.goTo]
  -- the phase is replaced by itself
  rw [← Option.some.inj ((List.getElem?_eq_getElem hlt).symm.trans (getElem?_phases hi)),
    List.set_getElem_self]

/-- A step that is matched by one step of the shared maximum. -/
theorem Matched.single (h : s'.Quiet) {e : SharedMaximum.Event ℕ}
    (hstep : SharedMaximum.step s.sharedMaximum e = some s'.sharedMaximum) :
    s.Matched (requests s.sharedMaximum e) s' := by
  refine ⟨h, [e], ?_, ?_⟩
  · rw [TransitionSystem.run_cons, hstep, Option.bind_some, TransitionSystem.run_nil]
  · rw [trace, hstep, Option.elim_some, trace, List.append_nil]

/-- A load of the preferred size by a thread that raises it. -/
theorem Matched.load (h : s.Quiet) (hi : s.threads[i]? = some th) (size : UInt32)
    (hload : th.point.raisePhase = .load size.toNat) {p : CallPoint} (hp : ¬ p.Resets)
    (hphase : p.raisePhase = SharedMaximum.loaded size.toNat s.currentBufferSize.toNat) :
    s.Matched [] (s.goTo i th p) := by
  refine Matched.single (h.setThread hp) (e := .load i) ?_
  have hphases := getElem?_phases hi
  rw [hload] at hphases
  simp only [SharedMaximum.step, hphases, sharedMaximum_setThread, hphase]
  rfl

/-- A compare-exchange that fails. -/
theorem Matched.exchangeFails (h : s.Quiet) (hi : s.threads[i]? = some th)
    {size cur : UInt32} (hexchange : th.point.raisePhase = .exchange size.toNat cur.toNat)
    {luck : Bool} (hfails : ¬ (luck ∧ s.currentBufferSize = cur)) {p : CallPoint}
    (hp : ¬ p.Resets)
    (hphase : p.raisePhase = SharedMaximum.loaded size.toNat s.currentBufferSize.toNat) :
    s.Matched [] (s.goTo i th p) := by
  refine Matched.single (h.setThread hp) (e := .exchange i luck) ?_
  have hphases := getElem?_phases hi
  rw [hexchange] at hphases
  have hfails' : ¬ (luck ∧ s.sharedMaximum.value = cur.toNat) :=
    fun hsame => hfails ⟨hsame.1, UInt32.toNat_inj.mp hsame.2⟩
  simp only [SharedMaximum.step, hphases, if_neg hfails', sharedMaximum_setThread, hphase]
  rfl

/-- A compare-exchange that succeeds. -/
theorem Matched.exchanges (h : s.Quiet) (hi : s.threads[i]? = some th) {size cur : UInt32}
    (hexchange : th.point.raisePhase = .exchange size.toNat cur.toNat) {luck : Bool}
    (hsame : luck ∧ s.currentBufferSize = cur) {p : CallPoint} (hp : ¬ p.Resets)
    (hphase : p.raisePhase = .idle) :
    s.Matched [] { s.goTo i th p with currentBufferSize := size } := by
  have hquiet : Quiet { s.goTo i th p with currentBufferSize := size } := h.setThread hp
  refine Matched.single hquiet (e := .exchange i luck) ?_
  have hphases := getElem?_phases hi
  rw [hexchange] at hphases
  have hsame' : luck ∧ s.sharedMaximum.value = cur.toNat :=
    ⟨hsame.1, UInt32.toNat_inj.mpr hsame.2⟩
  have hgo : (s.goTo i th p).sharedMaximum = s.sharedMaximum.goTo i .idle := by
    rw [← hphase]
    exact sharedMaximum_setThread s i { th with point := p }
  simp only [SharedMaximum.step, hphases, if_pos hsame', ← hgo]
  rfl

/-- The phase behind a load that has seen the preferred size. -/
theorem loaded_toNat (size cur : UInt32) :
    SharedMaximum.loaded size.toNat cur.toNat =
      if cur < size then .exchange size.toNat cur.toNat else .idle :=
  if_congr UInt32.lt_iff_toNat_lt.symm rfl rfl

/-- An allocation: a buffer from the cache, or a request. -/
theorem matched_alloc (h : s.Quiet) (hidle : s.idle? i = some th) (size : UInt32) (big : Bool) :
    s.Matched (s.missed (.alloc i size big)) (s.alloc i th size big) := by
  have hi := getElem?_of_idle? hidle
  have hpoint : th.point = .idle := by simpa using (Option.filter_eq_some_iff.mp hidle).2
  have hstack : ∀ l, (th.setStack big l).point = .idle := fun l =>
    PoolThread.point_setStack.trans hpoint
  cases big with
  | true =>
      -- the cache of big buffers has nothing to do with the preferred size
      simp only [missed, alloc, bigAlloc, allocFromCache, if_true]
      rcases popReusable s.heap size (th.stack true) with ⟨_ | b, rest, tooSmall⟩
      · exact Matched.same h hi { th.setStack true rest with point := _ } id
          (by rw [hpoint]; rfl)
      · exact Matched.same h hi _ (by rw [hstack]; exact id) (by rw [hstack, hpoint])
  | false =>
      simp only [missed, alloc, normalAlloc, allocFromCache, hidle, Option.elim_some]
      rcases popReusable s.heap size (th.stack false) with ⟨_ | b, rest, tooSmall⟩
      · -- a request of the thread
        have hphases := getElem?_phases hi
        rw [hpoint] at hphases
        let th' : PoolThread := { th.setStack false rest with point := .loadPoolSize size }
        have hquiet : (s.setThread i th').Quiet := h.setThread id
        refine Matched.single hquiet (e := .request i size.toNat) ?_
        simp only [SharedMaximum.step, hphases]
        exact congrArg some (sharedMaximum_setThread s i th').symm
      · exact Matched.same h hi _ (by rw [hstack]; exact id) (by rw [hstack, hpoint])

/-- A call that goes on. -/
theorem matched_advance (h : s.Quiet) (hi : s.threads[i]? = some th) {luck : Bool}
    (hstep : s.advance i th luck = some s') : s.Matched [] s' := by
  have hquiet := h th (List.mem_of_getElem? hi)
  unfold advance at hstep
  cases hpoint : th.point with
  | idle =>
      rw [hpoint] at hstep
      cases hstep
  | loadPoolSize size =>
      rw [hpoint] at hstep
      simp only at hstep
      by_cases hlarge : size < s.currentBufferSize
      · -- the preferred size is larger than the size of the call
        rw [if_pos hlarge, if_neg (UInt32.lt_irrefl _)] at hstep
        obtain rfl := Option.some.inj hstep
        refine Matched.load h hi size (by rw [hpoint]; rfl) id ?_
        rw [loaded_toNat, if_neg (UInt32.lt_asymm hlarge)]
        rfl
      · rw [if_neg hlarge] at hstep
        split_ifs at hstep with hsmall
        · -- `atomic_raise_size` loads the preferred size once more
          obtain rfl := Option.some.inj hstep
          exact Matched.same h hi { th with point := _ } id (by rw [hpoint]; rfl)
        · obtain rfl := Option.some.inj hstep
          refine Matched.load h hi size (by rw [hpoint]; rfl) id ?_
          rw [loaded_toNat, if_neg hsmall]
          rfl
  | raiseLoad size allocSize =>
      rw [hpoint] at hstep
      simp only at hstep
      split_ifs at hstep with hsmall
      · obtain rfl := Option.some.inj hstep
        refine Matched.load h hi allocSize (by rw [hpoint]; rfl) id ?_
        rw [loaded_toNat, if_pos hsmall]
        rfl
      · obtain rfl := Option.some.inj hstep
        refine Matched.load h hi allocSize (by rw [hpoint]; rfl) id ?_
        rw [loaded_toNat, if_neg hsmall]
        rfl
  | raiseExchange size allocSize cur =>
      rw [hpoint] at hstep
      simp only at hstep
      have hexchange : th.point.raisePhase = .exchange allocSize.toNat cur.toNat := by
        rw [hpoint]
        rfl
      split_ifs at hstep with hsame hsmall
      · obtain rfl := Option.some.inj hstep
        exact Matched.exchanges h hi hexchange hsame id rfl
      · obtain rfl := Option.some.inj hstep
        refine Matched.exchangeFails h hi hexchange hsame id ?_
        rw [loaded_toNat, if_pos hsmall]
        rfl
      · obtain rfl := Option.some.inj hstep
        refine Matched.exchangeFails h hi hexchange hsame id ?_
        rw [loaded_toNat, if_neg hsmall]
        rfl
  | newFromSystem size allocSize big =>
      rw [hpoint] at hstep
      simp only at hstep
      split_ifs at hstep
      · obtain rfl := Option.some.inj hstep
        exact Matched.same h hi { th with point := .idle } id (by rw [hpoint]; rfl)
      · obtain rfl := Option.some.inj hstep
        exact Matched.same h hi { th with point := .idle } id (by rw [hpoint]; rfl)
  -- nobody is in `initialize` or `clear`
  | testInitialized ts => exact (hquiet (by rw [hpoint]; trivial)).elim
  | testSize ts => exact (hquiet (by rw [hpoint]; trivial)).elim
  | storeSize ts flag => exact (hquiet (by rw [hpoint]; trivial)).elim
  | storeInitialized flag => exact (hquiet (by rw [hpoint]; trivial)).elim

/-- Every step but those of `initialize` and `clear` is matched by the steps of a shared maximum,
and the sizes that are requested are those of the calls that miss. -/
theorem matched_step (h : s.Quiet) {e : PoolEvent} (he : ¬ e.Resets)
    (hstep : s.step e = some s') : s.Matched (s.missed e) s' := by
  cases e with
  | spawn =>
      obtain rfl := Option.some.inj hstep
      refine Matched.single (fun t ht => ?_) (e := .join) ?_
      · rcases List.mem_append.mp ht with ht | ht
        · exact h t ht
        · obtain rfl := List.mem_singleton.mp ht
          exact id
      · simp [SharedMaximum.step, sharedMaximum, CallPoint.raisePhase]
  | alloc i size big =>
      obtain ⟨th, hidle, rfl⟩ := Option.map_eq_some_iff.mp hstep
      exact matched_alloc h hidle size big
  | free i buffer =>
      simp only [step] at hstep
      split_ifs at hstep
      obtain ⟨th, hidle, rfl⟩ := Option.map_eq_some_iff.mp hstep
      have hi := getElem?_of_idle? hidle
      cases buffer with
      | none => exact ⟨h, [], rfl, rfl⟩
      | some b =>
          have hpoint := h th (List.mem_of_getElem? hi)
          exact Matched.same h hi _ (by rwa [PoolThread.point_setStack])
            (by rw [PoolThread.point_setStack])
  | initializePool i stripWidth blockHeight => exact absurd trivial he
  | clear i => exact absurd trivial he
  | exit i =>
      obtain ⟨th, hidle, rfl⟩ := Option.map_eq_some_iff.mp hstep
      have hpoint : th.point = .idle := by simpa using (Option.filter_eq_some_iff.mp hidle).2
      exact Matched.same h (getElem?_of_idle? hidle) _ id (by rw [hpoint])
  | advance i luck =>
      obtain ⟨th, hthread, hadvance⟩ := Option.bind_eq_some_iff.mp hstep
      exact matched_advance h (getElem?_of_thread? hthread) hadvance

/-! ## Runs -/

/-- A run of a pool in which no call was going on, without calls of `initialize` and `clear`: the
pool is a shared maximum, and the requests are the calls that missed. -/
theorem sharedMaximum_of_run {s₀ : BufferPool} (hidle : ∀ th ∈ s₀.threads, th.point = .idle)
    {events : List PoolEvent} (hevents : ∀ e ∈ events, ¬ e.Resets)
    (hrun : TransitionSystem.run step s₀ events = some s) :
    s.Quiet ∧ SharedMaximum.Inv s₀.sharedMaximum.value s.sharedMaximum
      (trace step missed s₀ events) := by
  have hquiet : s₀.Quiet := fun th ht => by
    rw [hidle th ht]
    exact id
  -- the pool and its shared maximum go on together
  have hsim : ∀ e ∈ events, ∀ (s : BufferPool) (t : SharedMaximum.State ℕ) (s' : BufferPool),
      (s.Quiet ∧ t = s.sharedMaximum) → s.step e = some s' → ∃ events' t',
        TransitionSystem.run SharedMaximum.step t events' = some t' ∧
          trace SharedMaximum.step requests t events' = s.missed e ∧
            (s'.Quiet ∧ t' = s'.sharedMaximum) := by
    rintro e he s t s' ⟨hs, rfl⟩ hstep
    obtain ⟨hs', events', hmatch, hout⟩ := matched_step hs (hevents e he) hstep
    exact ⟨events', s'.sharedMaximum, hmatch, hout, hs', rfl⟩
  obtain ⟨events', t, hrun', htrace, hs, rfl⟩ :=
    TransitionSystem.run_simulation hsim ⟨hquiet, rfl⟩ hrun
  have hphases : ∀ p ∈ s₀.sharedMaximum.phases, p = .idle := by
    intro p hp
    obtain ⟨th, ht, rfl⟩ := List.mem_map.mp hp
    rw [hidle th ht]
    rfl
  exact ⟨hs, htrace ▸ SharedMaximum.inv_of_run hphases hrun'⟩

/-- What is promised about the preferred size after a run without `initialize` and `clear`. -/
structure RaisesKept (s₀ : BufferPool) (events : List PoolEvent) (s : BufferPool) : Prop where
  never_decreases : ∀ e s', ¬ e.Resets → s.step e = some s' →
    s.currentBufferSize ≤ s'.currentBufferSize
  /-- Of a thread that is between two calls, all calls have returned. -/
  returned : ∀ i th size, s.threads[i]? = some th → th.point = .idle →
    (i, size) ∈ trace step missed s₀ events → size ≤ s.currentBufferSize.toNat
  all_returned : (∀ th ∈ s.threads, th.point = .idle) →
    IsGreatest {size | size = s₀.currentBufferSize.toNat ∨
      ∃ i, (i, size) ∈ trace step missed s₀ events} s.currentBufferSize.toNat

/-- No raise of the preferred size is lost, in every state of every run. -/
theorem raises_kept {s₀ : BufferPool} (hidle : ∀ th ∈ s₀.threads, th.point = .idle)
    {events : List PoolEvent} (hevents : ∀ e ∈ events, ¬ e.Resets)
    (hrun : TransitionSystem.run step s₀ events = some s) : RaisesKept s₀ events s := by
  obtain ⟨hquiet, hinv⟩ := sharedMaximum_of_run hidle hevents hrun
  constructor
  case never_decreases =>
    intro e s' he hstep
    obtain ⟨-, events', hmatch, -⟩ := matched_step hquiet he hstep
    exact UInt32.le_iff_toNat_le.mpr (hinv.le_of_run hmatch)
  case returned =>
    intro i th size hi hpoint hsize
    have hphase := getElem?_phases hi
    rw [hpoint] at hphase
    exact hinv.le_of_idle hphase hsize
  case all_returned =>
    intro hall
    refine hinv.isGreatest_of_idle fun p hp => ?_
    obtain ⟨th, ht, rfl⟩ := List.mem_map.mp hp
    rw [hall th ht]
    rfl

/-- Two threads raise the preferred size at the same time. The first compare-exchange of the first
thread comes too late, and its second one fails although it need not. -/
def racingRaises : List PoolEvent :=
  [.spawn, .spawn, .alloc 0 100 false, .alloc 1 64 false, .advance 0 true, .advance 1 true,
    .advance 0 true, .advance 1 true, .advance 1 true, .advance 0 true, .advance 0 false,
    .advance 0 true, .advance 0 true, .advance 1 true]

/-- Neither of the two raises is lost. -/
theorem raises_kept_racingRaises :
    ∃ s, TransitionSystem.run step {} racingRaises = some s ∧ s.currentBufferSize = 100 ∧
      RaisesKept {} racingRaises s := by
  obtain ⟨s, hrun⟩ := Option.isSome_iff_exists.mp
    (by decide : (TransitionSystem.run step {} racingRaises).isSome)
  have hsize : (TransitionSystem.run step {} racingRaises).map
      (fun s => s.currentBufferSize) = some 100 := by decide
  rw [hrun] at hsize
  refine ⟨s, hrun, Option.some.inj hsize, raises_kept (fun th ht => ?_) ?_ hrun⟩
  · cases ht
  · simp [racingRaises, PoolEvent.Resets]

end BufferPool

end Redcli
