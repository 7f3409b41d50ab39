import Mathlib.Data.List.Perm.Basic
import Mathlib.Data.List.Count
import Mathlib.Data.List.Range
import Redcli.Buffers.BufferPool

/-!
# Ownership of Buffers

Every buffer that was obtained from the system is in one place: a client holds it, it lies in
one cache of one thread, or it went back to the system.

## Main results

* `places_of_setThread`: a step of one thread moves buffers between its own caches, the clients
  and the system only;
* `advance_cases`: what the next step of a call can do;
* `owned_step`: every step keeps the invariant `Owned`;
* `ownership`: the invariant holds in every state of every run.
-/

namespace Redcli

/-- A call that is about to allocate from the system asks for at least the size that the client
asked for. -/
def CallPoint.Enough : CallPoint → Prop
  | .raiseLoad size allocSize => size ≤ allocSize
  | .raiseExchange size allocSize _ => size ≤ allocSize
  | .newFromSystem size allocSize _ => size ≤ allocSize
  | _ => True

namespace BufferPool

/-- Where the buffers are: with the clients, back in the system, or in a cache. -/
def places (s : BufferPool) : List ℕ :=
  s.held ++ s.deleted ++ s.threads.flatMap PoolThread.cached

/-- The invariant of one thread: its caches are small and of one kind, and a call in progress
asks the system for enough. -/
structure ThreadOk (heap : List MemoryBuffer) (th : PoolThread) : Prop where
  length_le : ∀ big, (th.stack big).length ≤ cacheLimit big
  kind : ∀ big, ∀ b ∈ th.stack big, (headerOf heap b).bigBuffer = big
  enough : th.point.Enough

/-- The invariant of the pool. -/
structure Owned (s : BufferPool) : Prop where
  /-- Every buffer is in exactly one place. -/
  once : s.places.Perm (List.range s.heap.length)
  threads : ∀ th ∈ s.threads, ThreadOk s.heap th
  /-- A call of `alloc` returned what it was asked for. -/
  returned : ∀ r ∈ s.returned, r.buffer < s.heap.length ∧
    r.size ≤ (headerOf s.heap r.buffer).bufferSize ∧
      (headerOf s.heap r.buffer).bigBuffer = r.big

end BufferPool

namespace PoolThread

variable {th : PoolThread} {big : Bool} {l : List ℕ}

@[simp]
theorem stack_setStack_self : (th.setStack big l).stack big = l := by
  cases big <;> rfl

theorem stack_setStack_of_ne {big' : Bool} (h : big' ≠ big) :
    (th.setStack big l).stack big' = th.stack big' := by
  cases big <;> cases big' <;> first | rfl | exact absurd rfl h

@[simp]
theorem point_setStack : (th.setStack big l).point = th.point := by
  cases big <;> rfl

/-- A buffer in one of the two caches is cached. -/
theorem mem_cached_of_mem_stack {b : ℕ} (hb : b ∈ th.stack big) : b ∈ th.cached := by
  cases big
  · exact List.mem_append_left _ hb
  · exact List.mem_append_right _ hb

/-- The caches of a thread are one cache and the other. -/
theorem count_cached (th : PoolThread) (big : Bool) (b : ℕ) :
    th.cached.count b = (th.stack big).count b + (th.stack !big).count b := by
  cases big <;> simp [cached, stack, Nat.add_comm]

/-- Replacing one cache leaves the other. -/
theorem count_cached_setStack (th : PoolThread) (big : Bool) (l : List ℕ) (b : ℕ) :
    (th.setStack big l).cached.count b + (th.stack big).count b =
      th.cached.count b + l.count b := by
  rw [count_cached _ big, count_cached th big, stack_setStack_self,
    stack_setStack_of_ne (Bool.not_ne_self big)]
  omega

end PoolThread

/-! ## The two operations on a stack -/

/-- `pop_reusable` splits the stack into what it found, what is left and what was too small;
what it found is large enough. -/
theorem popReusable_spec (heap : List MemoryBuffer) (size : UInt32) (stack : List ℕ) :
    ((popReusable heap size stack).1.toList ++
      ((popReusable heap size stack).2.1 ++ (popReusable heap size stack).2.2)).Perm stack ∧
      (popReusable heap size stack).2.1 <:+ stack ∧
      ∀ b, (popReusable heap size stack).1 = some b →
        b ∈ stack ∧ size ≤ (headerOf heap b).bufferSize := by
  induction stack with
  | nil => exact ⟨List.Perm.nil, List.suffix_rfl, fun b h => by cases h⟩
  | cons b stack ih =>
      obtain ⟨hperm, hsuffix, hfound⟩ := ih
      unfold popReusable
      -- a buffer that is large enough ends the search
      split_ifs with hsize
      · refine ⟨by simp, List.suffix_cons b stack, fun c hc => ?_⟩
        obtain rfl := Option.some.inj hc
        exact ⟨List.mem_cons_self, hsize⟩
      · refine ⟨?_, hsuffix.trans (List.suffix_cons b stack), fun c hc => ?_⟩
        · rw [← List.append_assoc]
          exact List.perm_middle.trans ((List.append_assoc _ _ _ ▸ hperm).cons b)
        · exact ⟨List.mem_cons_of_mem b (hfound c hc).1, (hfound c hc).2⟩

/-- `push_or_delete` keeps the stack within its limit, and the buffer on it or deleted. -/
theorem pushOrDelete_spec (stack : List ℕ) (cap b : ℕ) (h : stack.length ≤ cap) :
    ((pushOrDelete stack cap b).1 ++ (pushOrDelete stack cap b).2).Perm (b :: stack) ∧
      (pushOrDelete stack cap b).1.length ≤ cap ∧
      ∀ c ∈ (pushOrDelete stack cap b).1, c = b ∨ c ∈ stack := by
  unfold pushOrDelete
  split_ifs with hroom
  · refine ⟨by simp, hroom, fun c hc => List.mem_cons.mp hc⟩
  · exact ⟨List.perm_append_comm, h, fun c hc => .inr hc⟩

namespace BufferPool

/-! ## Moving buffers -/

variable {s s' : BufferPool} {i : ℕ} {th th' : PoolThread}

/-- The buffers outside of thread `i` stay where they are when the thread is replaced: only
clients, the system and the caches of the thread exchange buffers. -/
theorem places_of_setThread (hi : s.threads[i]? = some th)
    (hthreads : s'.threads = s.threads.set i th')
    (hmove : (th'.cached ++ (s'.held ++ s'.deleted)).Perm
      (th.cached ++ (s.held ++ s.deleted))) : s'.places.Perm s.places := by
  obtain ⟨hlt, rfl⟩ := List.getElem?_eq_some_iff.mp hi
  have hsplit : s.threads = s.threads.take i ++ s.threads[i] :: s.threads.drop (i + 1) := by
    rw [← List.drop_eq_getElem_cons hlt, List.take_append_drop]
  have hset : s.threads.set i th' = s.threads.take i ++ th' :: s.threads.drop (i + 1) :=
    List.set_eq_take_append_cons_drop.trans (if_pos hlt)
  -- count a buffer in the caches of all threads
  refine List.perm_iff_count.mpr fun b => ?_
  have hcount := hmove.count_eq b
  have hold := congrArg (fun l => (l.flatMap PoolThread.cached).count b) hsplit
  simp only [List.count_append, List.flatMap_append, List.flatMap_cons] at hcount hold
  simp only [places, hthreads, hset, List.count_append, List.flatMap_append, List.flatMap_cons]
  omega

/-- A buffer in some place was obtained from the system. -/
theorem Owned.lt_of_mem (h : s.Owned) {b : ℕ} (hb : b ∈ s.places) : b < s.heap.length :=
  List.mem_range.mp (h.once.mem_iff.mp hb)

/-- The header of a buffer does not change when another buffer is obtained. -/
theorem headerOf_append {heap : List MemoryBuffer} {b : ℕ} (hb : b < heap.length)
    (more : List MemoryBuffer) : headerOf (heap ++ more) b = headerOf heap b := by
  rw [headerOf, headerOf, List.getD_eq_getElem?_getD, List.getD_eq_getElem?_getD,
    List.getElem?_append_left hb]

/-- A thread without buffers is in order between two calls. -/
theorem threadOk_empty (heap : List MemoryBuffer) (exited : Bool) :
    ThreadOk heap { exited := exited } where
  length_le big := by cases big <;> exact Nat.zero_le _
  kind big b hb := by cases big <;> cases hb
  enough := trivial

/-- A thread stays in order when more buffers are obtained. -/
theorem ThreadOk.append {heap : List MemoryBuffer} (h : ThreadOk heap th)
    (hlt : ∀ b ∈ th.cached, b < heap.length) (more : List MemoryBuffer) :
    ThreadOk (heap ++ more) th where
  length_le := h.length_le
  kind big b hb := by
    rw [headerOf_append (hlt b (PoolThread.mem_cached_of_mem_stack hb)), h.kind big b hb]
  enough := h.enough

/-- A thread stays in order at another point of a call. -/
theorem ThreadOk.goTo {heap : List MemoryBuffer} (h : ThreadOk heap th) {p : CallPoint}
    (hp : p.Enough) : ThreadOk heap { th with point := p } where
  length_le := h.length_le
  kind := h.kind
  enough := hp

/-- A thread stays in order when one of its caches is replaced. -/
theorem ThreadOk.setStack {heap : List MemoryBuffer} (h : ThreadOk heap th) {big : Bool}
    {l : List ℕ} (hlength : l.length ≤ cacheLimit big)
    (hkind : ∀ b ∈ l, (headerOf heap b).bigBuffer = big) :
    ThreadOk heap (th.setStack big l) where
  length_le big' := by
    by_cases heq : big' = big
    · rw [heq, PoolThread.stack_setStack_self]
      exact hlength
    · rw [PoolThread.stack_setStack_of_ne heq]
      exact h.length_le big'
  kind big' := by
    by_cases heq : big' = big
    · rw [heq, PoolThread.stack_setStack_self]
      exact hkind
    · rw [PoolThread.stack_setStack_of_ne heq]
      exact h.kind big'
  enough := by
    rw [PoolThread.point_setStack]
    exact h.enough

/-- A step that replaces one thread keeps the invariant if it only moves buffers, and if every
buffer that it hands out came from a cache and is what was asked for. -/
theorem Owned.replace (h : s.Owned) (hi : s.threads[i]? = some th)
    (hheap : s'.heap = s.heap) (hthreads : s'.threads = s.threads.set i th')
    (hmove : (th'.cached ++ (s'.held ++ s'.deleted)).Perm (th.cached ++ (s.held ++ s.deleted)))
    (hok : ThreadOk s.heap th')
    (hreturned : ∀ r ∈ s'.returned, r ∈ s.returned ∨ r.buffer ∈ th.cached ∧
      r.size ≤ (headerOf s.heap r.buffer).bufferSize ∧
        (headerOf s.heap r.buffer).bigBuffer = r.big) : s'.Owned where
  once := by
    rw [hheap]
    exact (places_of_setThread hi hthreads hmove).trans h.once
  threads t ht := by
    rw [hheap]
    rw [hthreads] at ht
    rcases List.mem_or_eq_of_mem_set ht with ht | rfl
    · exact h.threads t ht
    · exact hok
  returned r hr := by
    rw [hheap]
    rcases hreturned r hr with hr | ⟨hmem, hsize, hbig⟩
    · exact h.returned r hr
    · refine ⟨h.lt_of_mem (List.mem_append_right _ ?_), hsize, hbig⟩
      exact List.mem_flatMap.mpr ⟨th, List.mem_of_getElem? hi, hmem⟩

/-! ## The steps -/

/-- A step to another point of a call. -/
theorem Owned.goTo (h : s.Owned) (hi : s.threads[i]? = some th) {p : CallPoint} (hp : p.Enough) :
    (s.goTo i th p).Owned :=
  h.replace hi rfl rfl (List.Perm.refl _) ((h.threads th (List.mem_of_getElem? hi)).goTo hp)
    fun _ hr => .inl hr

/-- The shared variables do not matter for the places of the buffers. -/
theorem Owned.setShared (h : s.Owned) (size : UInt32) (flag : Bool) :
    { s with currentBufferSize := size, initialized := flag }.Owned where
  once := h.once
  threads := h.threads
  returned := h.returned

/-- The head of an allocation. -/
theorem Owned.allocFromCache (h : s.Owned) (hi : s.threads[i]? = some th) (size : UInt32)
    (big : Bool) {missed : CallPoint} (hmissed : missed.Enough) :
    (s.allocFromCache i th size big missed).Owned := by
  have hth := h.threads th (List.mem_of_getElem? hi)
  obtain ⟨hperm, hsuffix, hfound⟩ := popReusable_spec s.heap size (th.stack big)
  unfold BufferPool.allocFromCache
  generalize popReusable s.heap size (th.stack big) = result at hperm hsuffix hfound
  obtain ⟨found, rest, tooSmall⟩ := result
  -- what is left of the cache is in order
  have hok : ThreadOk s.heap (th.setStack big rest) :=
    hth.setStack (hsuffix.length_le.trans (hth.length_le big))
      fun b hb => hth.kind big b (hsuffix.subset hb)
  have hcached := fun b => th.count_cached_setStack big rest b
  cases found with
  | none =>
      -- nothing was large enough: what was popped is deleted
      refine h.replace hi rfl rfl ?_ (hok.goTo hmissed) fun _ hr => .inl hr
      refine List.perm_iff_count.mpr fun b => ?_
      have hcount := hperm.count_eq b
      have hrest := hcached b
      simp only [Option.toList_none, List.nil_append, List.count_append] at hcount
      show ((th.setStack big rest).cached ++ (s.held ++ (tooSmall ++ s.deleted))).count b = _
      simp only [List.count_append]
      omega
  | some c =>
      -- the buffer that was found goes to a client
      obtain ⟨hmem, hsize⟩ := hfound c rfl
      refine h.replace hi rfl rfl ?_ hok fun r hr => ?_
      · refine List.perm_iff_count.mpr fun b => ?_
        have hcount := hperm.count_eq b
        have hrest := hcached b
        simp only [Option.toList_some, List.singleton_append, List.count_cons,
          List.count_append] at hcount
        show ((th.setStack big rest).cached ++ ((c :: s.held) ++ (tooSmall ++ s.deleted))).count b
          = _
        simp only [List.count_append, List.count_cons]
        omega
      · rcases List.mem_cons.mp hr with rfl | hr
        · exact .inr ⟨PoolThread.mem_cached_of_mem_stack hmem, hsize, hth.kind big c hmem⟩
        · exact .inl hr

/-- A buffer that a client gives back. -/
theorem Owned.free (h : s.Owned) (hi : s.threads[i]? = some th) {buffer : Option ℕ}
    (hheld : ∀ b ∈ buffer, b ∈ s.held) : (s.free i th buffer).Owned := by
  cases buffer with
  | none => exact h
  | some c =>
      have hth := h.threads th (List.mem_of_getElem? hi)
      unfold BufferPool.free
      simp only
      -- the header of the buffer chooses the cache
      set big := (headerOf s.heap c).bigBuffer with hbig
      obtain ⟨hperm, hlength, hmem⟩ :=
        pushOrDelete_spec (th.stack big) (cacheLimit big) c (hth.length_le big)
      generalize pushOrDelete (th.stack big) (cacheLimit big) c = result at hperm hlength hmem
      obtain ⟨stack, gone⟩ := result
      have hkind : ∀ b ∈ stack, (headerOf s.heap b).bigBuffer = big := by
        intro b hb
        rcases hmem b hb with rfl | hb
        · exact hbig.symm
        · exact hth.kind big b hb
      refine h.replace hi rfl rfl ?_ (hth.setStack hlength hkind) fun _ hr => .inl hr
      refine List.perm_iff_count.mpr fun b => ?_
      have hcount := hperm.count_eq b
      have hrest := th.count_cached_setStack big stack b
      have hout := (List.perm_cons_erase (hheld c rfl)).count_eq b
      simp only [List.count_append, List.count_cons] at hcount hout
      show ((th.setStack big stack).cached ++ (s.held.erase c ++ (gone ++ s.deleted))).count b = _
      simp only [List.count_append]
      omega

/-- A thread that exits. -/
theorem Owned.exitThread (h : s.Owned) (hi : s.threads[i]? = some th) :
    (s.exitThread i th).Owned := by
  refine h.replace hi rfl rfl ?_ (threadOk_empty s.heap true) fun _ hr => .inl hr
  -- both caches are deleted
  refine List.perm_iff_count.mpr fun b => ?_
  show (PoolThread.cached { exited := true } ++ (s.held ++ (th.cached ++ s.deleted))).count b = _
  simp only [PoolThread.cached, List.count_append, List.count_nil]
  omega

/-- A buffer that is obtained from the system. -/
theorem Owned.obtain (h : s.Owned) (hi : s.threads[i]? = some th) {size allocSize : UInt32}
    {big : Bool} (hpoint : th.point = .newFromSystem size allocSize big) :
    Owned { s.goTo i th .idle with
      heap := s.heap ++ [{ bufferSize := allocSize, bigBuffer := big }]
      held := s.heap.length :: s.held
      returned := ⟨size, big, s.heap.length⟩ :: s.returned } := by
  have hgo := h.goTo hi (p := .idle) trivial
  have henough : size ≤ allocSize := by
    have := (h.threads th (List.mem_of_getElem? hi)).enough
    rwa [hpoint] at this
  -- the new buffer has the next number
  have hheader : headerOf (s.heap ++ [{ bufferSize := allocSize, bigBuffer := big }])
      s.heap.length = { bufferSize := allocSize, bigBuffer := big } := by
    simp [headerOf]
  constructor
  case once =>
    show (s.heap.length :: (s.goTo i th .idle).places).Perm _
    rw [List.length_append, List.length_singleton, List.range_succ]
    exact (hgo.once.cons _).trans (List.perm_append_singleton _ _).symm
  case threads =>
    intro t ht
    refine (hgo.threads t ht).append (fun b hb => hgo.lt_of_mem ?_) _
    exact List.mem_append_right _ (List.mem_flatMap.mpr ⟨t, ht, hb⟩)
  case returned =>
    intro r hr
    rw [List.length_append]
    rcases List.mem_cons.mp hr with rfl | hr
    · rw [hheader]
      exact ⟨Nat.lt_succ_self _, henough, rfl⟩
    · obtain ⟨hlt, hsize, hbig⟩ := h.returned r hr
      rw [headerOf_append hlt]
      exact ⟨Nat.lt_add_right _ hlt, hsize, hbig⟩

/-- The size that `normal_alloc` computes is large enough. -/
private theorem le_allocSize (size poolSize : UInt32) :
    size ≤ if size < poolSize then poolSize else size := by
  split_ifs with hlt
  · exact UInt32.le_of_lt hlt
  · exact UInt32.le_refl size

/-- What a call that goes on can do: it moves to another point, with new values of the shared
variables, or it obtains a buffer from the system and returns it. -/
theorem advance_cases {luck : Bool} (hstep : s.advance i th luck = some s') :
    (∃ p poolSize flag, (th.point.Enough → p.Enough) ∧
      s' = { s.goTo i th p with currentBufferSize := poolSize, initialized := flag }) ∨
    ∃ size allocSize big, th.point = .newFromSystem size allocSize big ∧
      s' = { s.goTo i th .idle with
        heap := s.heap ++ [{ bufferSize := allocSize, bigBuffer := big }]
        held := s.heap.length :: s.held
        returned := ⟨size, big, s.heap.length⟩ :: s.returned } := by
  -- most steps leave the shared variables as they are
  have hmoves : ∀ {p : CallPoint}, s.goTo i th p = s' → (th.point.Enough → p.Enough) →
      ∃ p poolSize flag, (th.point.Enough → p.Enough) ∧
        s' = { s.goTo i th p with currentBufferSize := poolSize, initialized := flag } :=
    fun heq hp => ⟨_, s.currentBufferSize, s.initialized, hp, heq.symm⟩
  unfold BufferPool.advance at hstep
  cases hpoint : th.point with
  | idle =>
      rw [hpoint] at hstep
      cases hstep
  -- `normal_alloc` asks for the preferred size, or for more
  | loadPoolSize size =>
      rw [hpoint] at hstep hmoves
      have hle := le_allocSize size s.currentBufferSize
      simp only at hstep
      generalize (if size < s.currentBufferSize then s.currentBufferSize else size) = allocSize
        at hle hstep
      split_ifs at hstep
      · exact .inl (hmoves (Option.some.inj hstep) (fun _ => hle))
      · exact .inl (hmoves (Option.some.inj hstep) (fun _ => hle))
  | raiseLoad size allocSize =>
      rw [hpoint] at hstep hmoves
      simp only at hstep
      split_ifs at hstep
      · exact .inl (hmoves (Option.some.inj hstep) id)
      · exact .inl (hmoves (Option.some.inj hstep) id)
  | raiseExchange size allocSize cur =>
      rw [hpoint] at hstep hmoves
      simp only at hstep
      split_ifs at hstep
      · -- the exchange has stored the new size
        exact .inl ⟨.newFromSystem size allocSize false, allocSize, s.initialized, id,
          (Option.some.inj hstep).symm⟩
      · exact .inl (hmoves (Option.some.inj hstep) id)
      · exact .inl (hmoves (Option.some.inj hstep) id)
  | newFromSystem size allocSize big =>
      rw [hpoint] at hstep hmoves
      simp only at hstep
      split_ifs at hstep
      · exact .inr ⟨size, allocSize, big, rfl, (Option.some.inj hstep).symm⟩
      · exact .inl (hmoves (Option.some.inj hstep) (fun _ => trivial))
  | testInitialized ts =>
      rw [hpoint] at hstep hmoves
      simp only at hstep
      split_ifs at hstep
      · exact .inl (hmoves (Option.some.inj hstep) id)
      · exact .inl (hmoves (Option.some.inj hstep) id)
  | testSize ts =>
      rw [hpoint] at hstep hmoves
      simp only at hstep
      split_ifs at hstep
      · exact .inl (hmoves (Option.some.inj hstep) id)
      · exact .inl (hmoves (Option.some.inj hstep) id)
  | storeSize ts flag =>
      rw [hpoint] at hstep
      exact .inl ⟨.storeInitialized flag, ts, s.initialized, id, (Option.some.inj hstep).symm⟩
  | storeInitialized flag =>
      rw [hpoint] at hstep
      exact .inl ⟨.idle, s.currentBufferSize, flag, id, (Option.some.inj hstep).symm⟩

/-- A call that goes on. -/
theorem Owned.advance (h : s.Owned) (hi : s.threads[i]? = some th) {luck : Bool}
    (hstep : s.advance i th luck = some s') : s'.Owned := by
  have henough := (h.threads th (List.mem_of_getElem? hi)).enough
  rcases advance_cases hstep with ⟨p, poolSize, flag, hp, rfl⟩ |
    ⟨size, allocSize, big, hpoint, rfl⟩
  · exact (h.goTo hi (hp henough)).setShared poolSize flag
  · exact h.obtain hi hpoint

theorem getElem?_of_thread? (h : s.thread? i = some th) : s.threads[i]? = some th :=
  (Option.filter_eq_some_iff.mp h).1

theorem getElem?_of_idle? (h : s.idle? i = some th) : s.threads[i]? = some th :=
  getElem?_of_thread? (Option.filter_eq_some_iff.mp h).1

/-- Every step keeps the invariant. -/
theorem owned_step (s : BufferPool) (e : PoolEvent) (s' : BufferPool) (h : s.Owned)
    (hstep : s.step e = some s') : s'.Owned := by
  cases e with
  | spawn =>
      obtain rfl := Option.some.inj hstep
      constructor
      case once =>
        have hsame : places { s with threads := s.threads ++ [{}] } = s.places := by
          simp [places, PoolThread.cached]
        rw [hsame]
        exact h.once
      case threads =>
        intro t ht
        rcases List.mem_append.mp ht with ht | ht
        · exact h.threads t ht
        · obtain rfl := List.mem_singleton.mp ht
          exact threadOk_empty s.heap false
      case returned => exact h.returned
  | alloc i size big =>
      obtain ⟨th, hidle, rfl⟩ := Option.map_eq_some_iff.mp hstep
      have hi := getElem?_of_idle? hidle
      cases big
      · exact h.allocFromCache hi size false trivial
      · exact h.allocFromCache hi size true (UInt32.le_refl size)
  | free i buffer =>
      simp only [step] at hstep
      split_ifs at hstep with hheld
      obtain ⟨th, hidle, rfl⟩ := Option.map_eq_some_iff.mp hstep
      exact h.free (getElem?_of_idle? hidle) hheld
  | initializePool i stripWidth blockHeight =>
      obtain ⟨th, hidle, rfl⟩ := Option.map_eq_some_iff.mp hstep
      exact h.goTo (getElem?_of_idle? hidle) trivial
  | clear i =>
      obtain ⟨th, hidle, rfl⟩ := Option.map_eq_some_iff.mp hstep
      exact h.goTo (getElem?_of_idle? hidle) trivial
  | exit i =>
      obtain ⟨th, hidle, rfl⟩ := Option.map_eq_some_iff.mp hstep
      exact h.exitThread (getElem?_of_idle? hidle)
  | advance i luck =>
      obtain ⟨th, hthread, hadvance⟩ := Option.bind_eq_some_iff.mp hstep
      exact h.advance (getElem?_of_thread? hthread) hadvance

/-- The unused pool. -/
theorem owned_init : ({} : BufferPool).Owned where
  once := List.Perm.refl _
  threads _ ht := absurd ht List.not_mem_nil
  returned _ hr := absurd hr List.not_mem_nil

/-- The invariant holds in every state of every run. -/
theorem owned_of_run {events : List PoolEvent} (hrun : run events = some s) : s.Owned :=
  TransitionSystem.run_invariant owned_step owned_init hrun

/-! ## What clients see -/

/-- A call that goes on returns a buffer to a client or nothing. -/
private theorem held_of_advance {luck : Bool} {r : AllocRecord}
    (hstep : s.advance i th luck = some s') (hr : s'.returned = r :: s.returned) :
    s'.held = r.buffer :: s.held := by
  rcases advance_cases hstep with ⟨p, poolSize, flag, -, rfl⟩ | ⟨size, allocSize, big, -, rfl⟩
  · exact absurd hr.symm (List.cons_ne_self r s.returned)
  · rw [← (List.cons.inj hr).1]

/-- A buffer that a step returns is added to what the clients hold. -/
theorem held_of_returned {e : PoolEvent} {r : AllocRecord} (hstep : s.step e = some s')
    (hr : s'.returned = r :: s.returned) : s'.held = r.buffer :: s.held := by
  have hsame : s'.returned = s.returned → False := fun heq =>
    List.cons_ne_self r s.returned (hr.symm.trans heq)
  cases e with
  | spawn =>
      obtain rfl := Option.some.inj hstep
      exact (hsame rfl).elim
  | alloc i size big =>
      obtain ⟨th, -, rfl⟩ := Option.map_eq_some_iff.mp hstep
      -- a buffer is returned from a cache, or the call goes on
      have hcache : ∀ missed, (s.allocFromCache i th size big missed).returned =
          r :: s.returned → (s.allocFromCache i th size big missed).held = r.buffer :: s.held := by
        intro missed
        unfold BufferPool.allocFromCache
        rcases popReusable s.heap size (th.stack big) with ⟨_ | b, rest, tooSmall⟩
        · exact fun heq => absurd heq.symm (List.cons_ne_self r s.returned)
        · intro heq
          rw [← (List.cons.inj heq).1]
      cases big
      · exact hcache _ hr
      · exact hcache _ hr
  | free i buffer =>
      simp only [step] at hstep
      split_ifs at hstep
      obtain ⟨th, -, rfl⟩ := Option.map_eq_some_iff.mp hstep
      cases buffer <;> exact (hsame rfl).elim
  | initializePool i stripWidth blockHeight =>
      obtain ⟨th, -, rfl⟩ := Option.map_eq_some_iff.mp hstep
      exact (hsame rfl).elim
  | clear i =>
      obtain ⟨th, -, rfl⟩ := Option.map_eq_some_iff.mp hstep
      exact (hsame rfl).elim
  | exit i =>
      obtain ⟨th, -, rfl⟩ := Option.map_eq_some_iff.mp hstep
      exact (hsame rfl).elim
  | advance i luck =>
      obtain ⟨th, -, hadvance⟩ := Option.bind_eq_some_iff.mp hstep
      exact held_of_advance hadvance hr

/-- What went back to the system stays there. -/
theorem deleted_suffix_of_step {e : PoolEvent} (hstep : s.step e = some s') :
    s.deleted <:+ s'.deleted := by
  cases e with
  | spawn =>
      obtain rfl := Option.some.inj hstep
      exact List.suffix_rfl
  | alloc i size big =>
      obtain ⟨th, -, rfl⟩ := Option.map_eq_some_iff.mp hstep
      have hcache : ∀ missed, s.deleted <:+ (s.allocFromCache i th size big missed).deleted := by
        intro missed
        unfold BufferPool.allocFromCache
        rcases popReusable s.heap size (th.stack big) with ⟨_ | b, rest, tooSmall⟩
        · exact List.suffix_append tooSmall s.deleted
        · exact List.suffix_append tooSmall s.deleted
      cases big
      · exact hcache _
      · exact hcache _
  | free i buffer =>
      simp only [step] at hstep
      split_ifs at hstep
      obtain ⟨th, -, rfl⟩ := Option.map_eq_some_iff.mp hstep
      cases buffer with
      | none => exact List.suffix_rfl
      | some b => exact List.suffix_append _ s.deleted
  | initializePool i stripWidth blockHeight =>
      obtain ⟨th, -, rfl⟩ := Option.map_eq_some_iff.mp hstep
      exact List.suffix_rfl
  | clear i =>
      obtain ⟨th, -, rfl⟩ := Option.map_eq_some_iff.mp hstep
      exact List.suffix_rfl
  | exit i =>
      obtain ⟨th, -, rfl⟩ := Option.map_eq_some_iff.mp hstep
      exact List.suffix_append th.cached s.deleted
  | advance i luck =>
      obtain ⟨th, -, hadvance⟩ := Option.bind_eq_some_iff.mp hstep
      rcases advance_cases hadvance with ⟨p, poolSize, flag, -, rfl⟩ | ⟨size, allocSize, big, -, rfl⟩
      · exact List.suffix_rfl
      · exact List.suffix_rfl

/-- A buffer that a client gives back is in no client's hands, but in the cache that its header
names, or back in the system. -/
theorem Owned.free_cases (h : s.Owned) {b : ℕ} (hstep : s.step (.free i (some b)) = some s') :
    b ∈ s.held ∧ b ∉ s'.held ∧
      ((∃ th, s'.threads[i]? = some th ∧ b ∈ th.stack (headerOf s.heap b).bigBuffer) ∨
        b ∈ s'.deleted) := by
  simp only [step] at hstep
  split_ifs at hstep with hheld
  obtain ⟨th, hidle, rfl⟩ := Option.map_eq_some_iff.mp hstep
  obtain ⟨hlt, -⟩ := List.getElem?_eq_some_iff.mp (getElem?_of_idle? hidle)
  -- the clients held it only once
  have hplaces : s.places.Nodup := h.once.nodup_iff.mpr List.nodup_range
  have hnodup : s.held.Nodup := (hplaces.sublist (List.sublist_append_left _ _)).sublist
    (List.sublist_append_left _ _)
  refine ⟨hheld b rfl, hnodup.not_mem_erase, ?_⟩
  set big := (headerOf s.heap b).bigBuffer with hbig
  by_cases hroom : (th.stack big).length < cacheLimit big
  · refine .inl ⟨th.setStack big (b :: th.stack big), ?_, by simp⟩
    simp [BufferPool.free, ← hbig, pushOrDelete, hroom, setThread, hlt]
  · refine .inr ?_
    simp [BufferPool.free, ← hbig, pushOrDelete, hroom]

/-- What is promised about a state of the pool. -/
structure Accounted (s : BufferPool) : Prop where
  /-- Every buffer that was obtained from the system is in one place, and only once. -/
  one_place : ∀ b < s.heap.length, s.places.count b = 1
  obtained : ∀ b ∈ s.places, b < s.heap.length
  normal_cache : ∀ th ∈ s.threads, th.normal.length ≤ 4 ∧
    ∀ b ∈ th.normal, (headerOf s.heap b).bigBuffer = false
  big_cache : ∀ th ∈ s.threads, th.big.length ≤ 2 ∧
    ∀ b ∈ th.big, (headerOf s.heap b).bigBuffer = true
  /-- Every call that returned a buffer returned what it was asked for. -/
  returned : ∀ r ∈ s.returned, r.size ≤ (headerOf s.heap r.buffer).bufferSize ∧
    (headerOf s.heap r.buffer).bigBuffer = r.big
  /-- A buffer that is handed out next was not in the hands of a client. -/
  handed_out : ∀ e s' r, s.step e = some s' → s'.returned = r :: s.returned →
    r.buffer ∉ s.held ∧ r.buffer ∈ s'.held
  /-- A buffer that is freed next leaves the hands of its client for a cache or the system. -/
  freed : ∀ i b s', s.step (.free i (some b)) = some s' → b ∈ s.held ∧ b ∉ s'.held ∧
    ((∃ th, s'.threads[i]? = some th ∧ b ∈ th.stack (headerOf s.heap b).bigBuffer) ∨
      b ∈ s'.deleted)
  /-- What went back to the system stays there. -/
  deleted : ∀ e s', s.step e = some s' → s.deleted <:+ s'.deleted

/-- Ownership of buffers, in every state of every run of any number of threads. -/
theorem ownership {events : List PoolEvent} (hrun : run events = some s) : s.Accounted := by
  have h := owned_of_run hrun
  constructor
  -- a permutation of all numbers has each of them once
  case one_place =>
    intro b hb
    rw [h.once.count_eq, List.nodup_range.count, if_pos (List.mem_range.mpr hb)]
  case obtained => exact fun b hb => h.lt_of_mem hb
  case normal_cache =>
    exact fun th ht => ⟨(h.threads th ht).length_le false, (h.threads th ht).kind false⟩
  case big_cache =>
    exact fun th ht => ⟨(h.threads th ht).length_le true, (h.threads th ht).kind true⟩
  case returned => exact fun r hr => (h.returned r hr).2
  case handed_out =>
    intro e s' r hstep hr
    have hheld := held_of_returned hstep hr
    refine ⟨fun hmem => ?_, hheld ▸ List.mem_cons_self⟩
    -- otherwise the buffer would be in the hands of the clients twice
    have hnodup : s'.places.Nodup := (owned_step s e s' h hstep).once.nodup_iff.mpr List.nodup_range
    rw [places, hheld, List.cons_append, List.cons_append, List.nodup_cons] at hnodup
    exact hnodup.1 (List.mem_append_left _ (List.mem_append_left _ hmem))
  case freed => exact fun i b s' hstep => h.free_cases hstep
  case deleted => exact fun e s' hstep => deleted_suffix_of_step hstep

/-- One thread allocates a buffer and raises the preferred size, another one frees the buffer
and gets it again. -/
def migratingBuffer : List PoolEvent :=
  [.spawn, .spawn, .alloc 0 64 false, .advance 0 true, .advance 0 true, .advance 0 true,
    .advance 0 true, .free 1 (some 0), .alloc 1 32 false]

/-- The accounts of a buffer that changes threads. -/
theorem ownership_migratingBuffer :
    ∃ s, run migratingBuffer = some s ∧ s.held = [0] ∧ s.Accounted := by
  obtain ⟨s, hrun⟩ := Option.isSome_iff_exists.mp (by decide : (run migratingBuffer).isSome)
  have hheld : (run migratingBuffer).map (fun s => s.held) = some [0] := by decide
  rw [hrun] at hheld
  exact ⟨s, hrun, Option.some.inj hheld, ownership hrun⟩

end BufferPool

end Redcli
