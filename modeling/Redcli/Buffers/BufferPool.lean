import Mathlib.Algebra.Order.Ring.Nat
import Mathlib.Data.List.Basic
import Redcli.Support.TransitionSystem

/-!
# The Buffer Pool

`rle4k_buffer_mgr`: buffers are obtained from the system and kept in caches that belong to one
thread each. What the threads share is the preferred size of a buffer and the flag
`initialized`, two atomic variables.

The pool is a transition system. A thread works on its own caches in one step, which no other
thread can observe, and every access to a shared variable is a step of its own; so is the
allocation from the system. A buffer is known by the number of buffers that were obtained from
the system before it, and a stack is a list whose head is the back of the vector.
-/

namespace Redcli

/-- `memory_buffer`: the header in front of a buffer. -/
structure MemoryBuffer where
  bufferSize : UInt32 := 0
  bigBuffer : Bool := false
  deriving DecidableEq, Repr

/-- `kMaxNormal` and `kMaxBig`. -/
def cacheLimit (big : Bool) : ℕ := if big then 2 else 4

/-- `get_memory_buffer_size`. -/
def getMemoryBufferSize (stripWidth blockHeight : UInt32) : UInt32 :=
  (stripWidth + 511) / 512 * 512 / 8 * blockHeight

/-- Where a thread stands: between two calls, or in front of the next shared access of a call.
`size` is the size that was asked for, `allocSize` the one that is passed to the system. -/
inductive CallPoint where
  | idle
  /-- `current_buffer_size.load` in `normal_alloc`. -/
  | loadPoolSize (size : UInt32)
  /-- `tracked.load` in `atomic_raise_size`. -/
  | raiseLoad (size allocSize : UInt32)
  /-- `tracked.compare_exchange_weak` in `atomic_raise_size`. -/
  | raiseExchange (size allocSize cur : UInt32)
  /-- `memory_buffer::new_from_system`. -/
  | newFromSystem (size allocSize : UInt32) (big : Bool)
  /-- `initialized.load` in `initialize`. -/
  | testInitialized (ts : UInt32)
  /-- `current_buffer_size.load` in `initialize`. -/
  | testSize (ts : UInt32)
  /-- `current_buffer_size.store`, then `initialized.store`. -/
  | storeSize (ts : UInt32) (flag : Bool)
  | storeInitialized (flag : Bool)
  deriving DecidableEq, Repr

/-- A thread with its `tls_buffer_cache`. -/
structure PoolThread where
  normal : List ℕ := []
  big : List ℕ := []
  point : CallPoint := .idle
  exited : Bool := false
  deriving DecidableEq, Repr

namespace PoolThread

/-- One of the two caches. -/
def stack (th : PoolThread) (big : Bool) : List ℕ := if big then th.big else th.normal

/-- The thread with one cache replaced. -/
def setStack (th : PoolThread) (big : Bool) (l : List ℕ) : PoolThread :=
  if big then { th with big := l } else { th with normal := l }

/-- All buffers in the caches of a thread. -/
def cached (th : PoolThread) : List ℕ := th.normal ++ th.big

end PoolThread

/-- A call of `alloc` that returned a buffer. -/
structure AllocRecord where
  size : UInt32
  big : Bool
  buffer : ℕ
  deriving DecidableEq, Repr

/-- The state of the pool: the shared variables, the headers of all buffers that were ever
obtained from the system, the threads, the buffers that clients hold, the buffers that were
given back to the system, and the history of the calls that returned a buffer. -/
structure BufferPool where
  currentBufferSize : UInt32 := 0
  initialized : Bool := false
  heap : List MemoryBuffer := []
  threads : List PoolThread := []
  held : List ℕ := []
  deleted : List ℕ := []
  returned : List AllocRecord := []
  deriving DecidableEq, Repr

/-- The header of a buffer. -/
def headerOf (heap : List MemoryBuffer) (b : ℕ) : MemoryBuffer := heap.getD b {}

/-- `pop_reusable`: the buffer that is found, the rest of the stack, and the buffers that were
too small and went back to the system. -/
def popReusable (heap : List MemoryBuffer) (size : UInt32) :
    List ℕ → Option ℕ × List ℕ × List ℕ
  | [] => (none, [], [])
  | b :: stack =>
      if size ≤ (headerOf heap b).bufferSize then (some b, stack, [])
      else
        let (found, rest, tooSmall) := popReusable heap size stack
        (found, rest, b :: tooSmall)

/-- `push_or_delete`: the stack, and the buffer if it went back to the system. -/
def pushOrDelete (stack : List ℕ) (cap : ℕ) (b : ℕ) : List ℕ × List ℕ :=
  if stack.length < cap then (b :: stack, []) else (stack, [b])

namespace BufferPool

/-- The pool with thread `i` replaced. -/
def setThread (s : BufferPool) (i : ℕ) (th : PoolThread) : BufferPool :=
  { s with threads := s.threads.set i th }

/-- Thread `i` goes on to its next shared access. -/
def goTo (s : BufferPool) (i : ℕ) (th : PoolThread) (p : CallPoint) : BufferPool :=
  s.setThread i { th with point := p }

/-- The head of an allocation: a buffer from a cache of the thread, or the point `missed`. -/
def allocFromCache (s : BufferPool) (i : ℕ) (th : PoolThread) (size : UInt32) (big : Bool)
    (missed : CallPoint) : BufferPool :=
  let (found, rest, tooSmall) := popReusable s.heap size (th.stack big)
  let th := th.setStack big rest
  match found with
  | some b =>
      { s.setThread i th with
        held := b :: s.held
        deleted := tooSmall ++ s.deleted
        returned := ⟨size, big, b⟩ :: s.returned }
  | none => { s.goTo i th missed with deleted := tooSmall ++ s.deleted }

/-- `normal_alloc`, up to its first shared access. -/
def normalAlloc (s : BufferPool) (i : ℕ) (th : PoolThread) (size : UInt32) : BufferPool :=
  s.allocFromCache i th size false (.loadPoolSize size)

/-- `big_alloc`, up to the allocation from the system. -/
def bigAlloc (s : BufferPool) (i : ℕ) (th : PoolThread) (size : UInt32) : BufferPool :=
  s.allocFromCache i th size true (.newFromSystem size size true)

/-- `alloc`. -/
def alloc (s : BufferPool) (i : ℕ) (th : PoolThread) (size : UInt32) (big : Bool) : BufferPool :=
  if big then s.bigAlloc i th size else s.normalAlloc i th size

/-- `free`, which does nothing for a null pointer. The cache is chosen by the flag in the header
of the buffer. -/
def free (s : BufferPool) (i : ℕ) (th : PoolThread) (buffer : Option ℕ) : BufferPool :=
  match buffer with
  | none => s
  | some b =>
      let big := (headerOf s.heap b).bigBuffer
      let (stack, gone) := pushOrDelete (th.stack big) (cacheLimit big) b
      { s.setThread i (th.setStack big stack) with
        held := s.held.erase b
        deleted := gone ++ s.deleted }

/-- The destructor of the caches of a thread that exits. -/
def exitThread (s : BufferPool) (i : ℕ) (th : PoolThread) : BufferPool :=
  { s.setThread i { exited := true } with deleted := th.cached ++ s.deleted }

/-- The next step inside a call. `luck` is `false` if a weak compare-exchange fails although it
need not, or if the system has no memory. -/
def advance (s : BufferPool) (i : ℕ) (th : PoolThread) (luck : Bool) : Option BufferPool :=
  match th.point with
  | .idle => none
  | .loadPoolSize size =>
      let poolSize := s.currentBufferSize
      let allocSize := if size < poolSize then poolSize else size
      if poolSize < allocSize then some (s.goTo i th (.raiseLoad size allocSize))
      else some (s.goTo i th (.newFromSystem size allocSize false))
  | .raiseLoad size allocSize =>
      -- the test of the loop reads the value that was loaded
      if s.currentBufferSize < allocSize then
        some (s.goTo i th (.raiseExchange size allocSize s.currentBufferSize))
      else some (s.goTo i th (.newFromSystem size allocSize false))
  | .raiseExchange size allocSize cur =>
      if luck ∧ s.currentBufferSize = cur then
        some { s.goTo i th (.newFromSystem size allocSize false) with
          currentBufferSize := allocSize }
      -- a failed exchange has loaded the value again
      else if s.currentBufferSize < allocSize then
        some (s.goTo i th (.raiseExchange size allocSize s.currentBufferSize))
      else some (s.goTo i th (.newFromSystem size allocSize false))
  | .newFromSystem size allocSize big =>
      if luck then
        some { s.goTo i th .idle with
          heap := s.heap ++ [{ bufferSize := allocSize, bigBuffer := big }]
          held := s.heap.length :: s.held
          returned := ⟨size, big, s.heap.length⟩ :: s.returned }
      else some (s.goTo i th .idle)
  | .testInitialized ts =>
      if s.initialized then some (s.goTo i th (.testSize ts))
      else some (s.goTo i th (.storeSize ts true))
  | .testSize ts =>
      if ts ≤ s.currentBufferSize then some (s.goTo i th .idle)
      else some (s.goTo i th (.storeSize ts true))
  | .storeSize ts flag =>
      some { s.goTo i th (.storeInitialized flag) with currentBufferSize := ts }
  | .storeInitialized flag => some { s.goTo i th .idle with initialized := flag }

end BufferPool

/-- What can happen next: a thread starts or exits, a thread that is idle calls a function of
the pool, or a call goes on. -/
inductive PoolEvent where
  | spawn
  | alloc (i : ℕ) (size : UInt32) (big : Bool)
  | free (i : ℕ) (buffer : Option ℕ)
  | initializePool (i : ℕ) (stripWidth blockHeight : UInt32)
  | clear (i : ℕ)
  | exit (i : ℕ)
  | advance (i : ℕ) (luck : Bool)
  deriving DecidableEq, Repr

namespace BufferPool

/-- The thread `i`, if it runs. -/
def thread? (s : BufferPool) (i : ℕ) : Option PoolThread :=
  s.threads[i]?.filter fun th => !th.exited

/-- The thread `i`, if it is between two calls. -/
def idle? (s : BufferPool) (i : ℕ) : Option PoolThread :=
  (s.thread? i).filter fun th => th.point = .idle

/-- The steps of the pool. A client frees only what some client holds. -/
def step (s : BufferPool) : PoolEvent → Option BufferPool
  | .spawn => some { s with threads := s.threads ++ [{}] }
  | .alloc i size big => (s.idle? i).map fun th => s.alloc i th size big
  | .free i buffer =>
      if ∀ b ∈ buffer, b ∈ s.held then (s.idle? i).map fun th => s.free i th buffer else none
  | .initializePool i stripWidth blockHeight =>
      (s.idle? i).map fun th =>
        s.goTo i th (.testInitialized (getMemoryBufferSize stripWidth blockHeight))
  | .clear i => (s.idle? i).map fun th => s.goTo i th (.storeSize 0 false)
  | .exit i => (s.idle? i).map fun th => s.exitThread i th
  | .advance i luck => (s.thread? i).bind fun th => s.advance i th luck

/-- A run of a pool that nobody has used yet. -/
def run (events : List PoolEvent) : Option BufferPool :=
  TransitionSystem.run step {} events

end BufferPool

end Redcli
