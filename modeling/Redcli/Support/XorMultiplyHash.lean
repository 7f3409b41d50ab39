import Mathlib.Algebra.Order.Group.Abs
import Mathlib.Algebra.Order.Ring.Int
import Mathlib.Data.Int.ModEq
import Mathlib.Data.Nat.Bitwise
import Mathlib.Tactic.Common

/-!
# Hashes by Exclusive Or and Multiplication

A hash of a sequence of words that takes each word into its state by exclusive or and then
multiplies the state by a constant. The constant has an inverse, so the state before a word is
known from the state behind it.

## Main results

* `hash_injective`: the hash of a fixed sequence is injective in the state it starts from;
* `exists_toNat_xor`: an exclusive or with a small word moves a state by a small distance;
* `exists_step_sub`: how the distance of two states grows in a step.
-/

namespace XorMultiplyHash

variable {w : ℕ}

/-- One step of the hash. -/
def step (p h b : BitVec w) : BitVec w := (h ^^^ b) * p

/-- The state of the hash behind a sequence of words. -/
def hash (p h : BitVec w) (data : List (BitVec w)) : BitVec w := data.foldl (step p) h

variable {p h h' : BitVec w}

@[simp]
theorem hash_nil : hash p h [] = h := rfl

@[simp]
theorem hash_cons (b : BitVec w) (data : List (BitVec w)) :
    hash p h (b :: data) = hash p (step p h b) data := rfl

theorem hash_append (data data' : List (BitVec w)) :
    hash p h (data ++ data') = hash p (hash p h data) data' := List.foldl_append

section Injective

variable {q : BitVec w} (hq : p * q = 1)
include hq

/-- Multiplication by a constant with an inverse is injective. -/
theorem mul_inj {x y : BitVec w} : x * p = y * p ↔ x = y := by
  constructor
  · intro h
    rw [← BitVec.mul_one x, ← BitVec.mul_one y, show (1#w : BitVec w) = p * q from hq.symm,
      ← BitVec.mul_assoc, ← BitVec.mul_assoc, h]
  · rintro rfl
    rfl

/-- A step is injective in the state. -/
theorem step_inj {b : BitVec w} : step p h b = step p h' b ↔ h = h' := by
  rw [step, step, mul_inj hq, BitVec.xor_left_inj]

/-- The hash of a fixed sequence is injective in the state. -/
theorem hash_injective (data : List (BitVec w)) : hash p h data = hash p h' data ↔ h = h' := by
  induction data generalizing h h' with
  | nil => rfl
  | cons b data ih => rw [hash_cons, hash_cons, ih, step_inj hq]

end Injective

/-! ## Distances -/

/-- An exclusive or with a word below `2 ^ k` moves a state by less than `2 ^ k`. -/
theorem exists_toNat_xor {k : ℕ} (x : BitVec w) {b : BitVec w} (hb : b.toNat < 2 ^ k) :
    ∃ d : ℤ, |d| < 2 ^ k ∧ ((x ^^^ b).toNat : ℤ) = x.toNat + d := by
  -- only the low `k` bits change
  have hhigh : (x.toNat ^^^ b.toNat) / 2 ^ k = x.toNat / 2 ^ k := by
    rw [Nat.xor_div_two_pow, Nat.div_eq_of_lt hb, Nat.xor_zero]
  have hx := Nat.div_add_mod x.toNat (2 ^ k)
  have hxb := Nat.div_add_mod (x.toNat ^^^ b.toNat) (2 ^ k)
  have hpos : 0 < 2 ^ k := Nat.two_pow_pos k
  have hmod := Nat.mod_lt x.toNat hpos
  have hmod' := Nat.mod_lt (x.toNat ^^^ b.toNat) hpos
  rw [hhigh] at hxb
  refine ⟨((x.toNat ^^^ b.toNat : ℕ) : ℤ) - x.toNat, ?_, by rw [BitVec.toNat_xor]; omega⟩
  rw [abs_lt]
  generalize 2 ^ k * (x.toNat / 2 ^ k) = high at hx hxb
  have hcast : ((2 ^ k : ℕ) : ℤ) = 2 ^ k := by push_cast; rfl
  omega

/-- Two states that are made equal by words below `2 ^ k` have a distance less than `2 ^ k`. -/
theorem exists_sub_of_xor_eq {k : ℕ} {x y b b' : BitVec w} (hb : b.toNat < 2 ^ k)
    (hb' : b'.toNat < 2 ^ k) (h : x ^^^ b = y ^^^ b') :
    ∃ d : ℤ, |d| < 2 ^ k ∧ (x.toNat : ℤ) = y.toNat + d := by
  have hx : x = y ^^^ (b' ^^^ b) := by
    rw [← BitVec.xor_assoc, ← h, BitVec.xor_assoc, BitVec.xor_self, BitVec.xor_zero]
  have hlt : (b' ^^^ b).toNat < 2 ^ k := by
    rw [BitVec.toNat_xor]
    exact Nat.xor_lt_two_pow hb' hb
  rw [hx]
  exact exists_toNat_xor y hlt

/-- The difference of two states, up to multiples of `2 ^ w`. -/
def Differ (x y : BitVec w) (d : ℤ) : Prop := (x.toNat : ℤ) - y.toNat ≡ d [ZMOD 2 ^ w]

theorem differ_self (x : BitVec w) : Differ x x 0 := by
  rw [Differ, Int.sub_self]

/-- Multiplication multiplies a difference. -/
theorem Differ.mul {x y : BitVec w} {d : ℤ} (h : Differ x y d) (p : BitVec w) :
    Differ (x * p) (y * p) (d * p.toNat) := by
  have hmul : ∀ x : BitVec w, ((x * p).toNat : ℤ) ≡ x.toNat * p.toNat [ZMOD 2 ^ w] := by
    intro x
    rw [BitVec.toNat_mul, Int.natCast_emod, Int.natCast_mul]
    push_cast
    exact Int.mod_modEq _ _
  have hsub := (hmul x).sub (hmul y)
  rw [← Int.sub_mul] at hsub
  exact hsub.trans (h.mul_right _)

/-- A step with words below `2 ^ k` adds a small digit to a difference and multiplies it. The
digit of two equal states is zero for equal words only. -/
theorem exists_step_sub {k : ℕ} {x y b b' : BitVec w} {d : ℤ} (hb : b.toNat < 2 ^ k)
    (hb' : b'.toNat < 2 ^ k) (h : Differ x y d) :
    ∃ e : ℤ, |e| ≤ 2 * (2 ^ k - 1) ∧ Differ (step p x b) (step p y b') ((d + e) * p.toNat) ∧
      (x = y → e = 0 → b = b') := by
  obtain ⟨c, hc, hx⟩ := exists_toNat_xor x hb
  obtain ⟨c', hc', hy⟩ := exists_toNat_xor y hb'
  refine ⟨c - c', ?_, ?_, ?_⟩
  · rw [abs_lt] at hc hc'
    rw [abs_le]
    omega
  · have hxor : Differ (x ^^^ b) (y ^^^ b') (d + (c - c')) := by
      rw [Differ, hx, hy, show (x.toNat : ℤ) + c - (y.toNat + c') = x.toNat - y.toNat + (c - c') by
        omega]
      exact h.add_right _
    exact hxor.mul p
  · rintro rfl hzero
    have heq : x ^^^ b = x ^^^ b' := BitVec.eq_of_toNat_eq (by omega)
    exact (BitVec.xor_right_inj x).mp heq

/-- The difference behind two sequences of words below `2 ^ k`, digit by digit. -/
theorem exists_digits {k : ℕ} {data data' : List (BitVec w)}
    (hlen : data.length = data'.length) (hdata : ∀ b ∈ data, b.toNat < 2 ^ k)
    (hdata' : ∀ b ∈ data', b.toNat < 2 ^ k) {x y : BitVec w} {d : ℤ} (h : Differ x y d) :
    ∃ es : List ℤ, es.length = data.length ∧ (∀ e ∈ es, |e| ≤ 2 * (2 ^ k - 1)) ∧
      Differ (hash p x data) (hash p y data') (es.foldl (fun d e => (d + e) * p.toNat) d) ∧
        (x = y → (∀ e ∈ es, e = 0) → data = data') := by
  induction data generalizing data' x y d with
  | nil =>
      obtain rfl := List.length_eq_zero_iff.mp hlen.symm
      exact ⟨[], rfl, fun e he => absurd he List.not_mem_nil, h, fun _ _ => rfl⟩
  | cons b data ih =>
      obtain ⟨b', data', rfl⟩ := List.exists_cons_of_length_eq_add_one hlen.symm
      obtain ⟨hb, hdata⟩ := List.forall_mem_cons.mp hdata
      obtain ⟨hb', hdata'⟩ := List.forall_mem_cons.mp hdata'
      obtain ⟨e, he, hstep, heq⟩ := exists_step_sub (p := p) hb hb' h
      obtain ⟨es, hes, hbound, hhash, hzero⟩ := ih (Nat.succ.inj hlen) hdata hdata' hstep
      refine ⟨e :: es, by rw [List.length_cons, List.length_cons, hes],
        List.forall_mem_cons.mpr ⟨he, hbound⟩, hhash, fun hxy hall => ?_⟩
      obtain ⟨he0, hall⟩ := List.forall_mem_cons.mp hall
      obtain rfl := heq hxy he0
      rw [hzero (by rw [hxy]) hall]

end XorMultiplyHash
