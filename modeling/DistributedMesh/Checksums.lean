import Mathlib

namespace Checksums

variable {w : Nat}

/-- One step of a reflected shift register: the lowest bit leaves, and where it is set the polynomial is taken off. -/
def shift (poly c : BitVec w) : BitVec w := if c.getLsbD 0 then poly ^^^ (c >>> 1) else c >>> 1

/-- One bit of a message at the low end of the register, and the step that takes it out. -/
def feed (poly c : BitVec w) (b : Bool) : BitVec w := shift poly (c ^^^ (BitVec.ofBool b).setWidth w)

/-- The register after a message's bits, one at a time. -/
def feedAll (poly c : BitVec w) (bits : List Bool) : BitVec w := bits.foldl (feed poly) c

/-- A word whose lowest bits are a run of bits, the first of them lowest. -/
def word : List Bool → BitVec w
  | [] => 0
  | b :: bs => (BitVec.ofBool b).setWidth w ^^^ (word bs <<< 1)

section Shifts

variable {poly c d e : BitVec w} {k : Nat}

/-- A part of the register whose lowest bit is clear only moves down. -/
theorem shift_xor_of_even (he : e.getLsbD 0 = false) :
    shift poly (c ^^^ e) = shift poly c ^^^ (e >>> 1) := by
  unfold shift
  rw [BitVec.getLsbD_xor, he, Bool.xor_false, BitVec.ushiftRight_xor_distrib]
  split
  · rw [BitVec.xor_assoc]
  · rfl

theorem iterate_shift_xor (he : ∀ i < k, e.getLsbD i = false) :
    (shift poly)^[k] (c ^^^ e) = (shift poly)^[k] c ^^^ (e >>> k) := by
  induction k generalizing c e with
  | zero => simp
  | succ k ih =>
    rw [Function.iterate_succ_apply, shift_xor_of_even (he 0 (by omega)), ih, Function.iterate_succ_apply]
    · rw [Nat.add_comm k 1, BitVec.shiftRight_add]
    · intro i hi
      rw [BitVec.getLsbD_ushiftRight]
      exact he (1 + i) (by omega)

theorem eq_of_ushiftRight_one (hlow : c.getLsbD 0 = d.getLsbD 0) (h : c >>> 1 = d >>> 1) : c = d := by
  apply BitVec.eq_of_getLsbD_eq
  intro i hi
  cases i with
  | zero => exact hlow
  | succ i =>
    have hbit := congrArg (fun x => BitVec.getLsbD x i) h
    simp only [BitVec.getLsbD_ushiftRight] at hbit
    rw [Nat.add_comm i 1]
    exact hbit

/-- The highest bit after a step is the bit that left. -/
theorem msb_shift (htop : poly.msb = true) : (shift poly c).msb = c.getLsbD 0 := by
  have hclear : (c >>> 1).msb = false := by
    rw [BitVec.msb_ushiftRight]
    rfl
  unfold shift
  split
  next h => rw [BitVec.msb_xor, htop, hclear, h]; rfl
  next h => rw [hclear, eq_false_of_ne_true h]

/-- No step forgets: a polynomial with its constant term makes every one reversible. -/
theorem shift_injective (htop : poly.msb = true) : Function.Injective (shift poly) := by
  intro c d h
  have hlow : c.getLsbD 0 = d.getLsbD 0 := by
    rw [← msb_shift htop, ← msb_shift htop, h]
  apply eq_of_ushiftRight_one hlow
  unfold shift at h
  rw [hlow] at h
  split at h
  · exact BitVec.xor_right_inj poly |>.mp h
  · exact h

end Shifts

section Bursts

variable {poly c d : BitVec w} {bs ms ms' : List Bool}

theorem word_getLsbD (bs : List Bool) (i : Nat) :
    (word bs : BitVec w).getLsbD i = (decide (i < w) && bs[i]?.getD false) := by
  induction bs generalizing i with
  | nil => simp [word]
  | cons b bs ih =>
    rw [word, BitVec.getLsbD_xor, BitVec.getLsbD_shiftLeft, BitVec.getLsbD_setWidth]
    cases i with
    | zero => simp
    | succ i =>
      rw [ih, BitVec.getLsbD_of_ge _ (i + 1) (by omega), Nat.add_sub_cancel]
      by_cases hi : i + 1 < w
      · have hi' : i < w := by omega
        simp [hi, hi']
      · simp [hi]

/-- A run no longer than the register goes in as one word. -/
theorem feedAll_eq_iterate (h : bs.length ≤ w) :
    feedAll poly c bs = (shift poly)^[bs.length] (c ^^^ word bs) := by
  induction bs generalizing c with
  | nil => simp [feedAll, word]
  | cons b bs ih =>
    rw [List.length_cons] at h
    have hback : (word bs : BitVec w) <<< 1 >>> 1 = word bs := by
      apply BitVec.eq_of_getLsbD_eq
      intro i hi
      rw [BitVec.getLsbD_ushiftRight, BitVec.getLsbD_shiftLeft, word_getLsbD, word_getLsbD]
      by_cases hend : 1 + i < w
      · simp [hend, hi]
      · rw [List.getElem?_eq_none (by omega : bs.length ≤ i)]
        simp [hend]
    have hstep : feed poly c b ^^^ word bs = shift poly (c ^^^ word (b :: bs)) := by
      rw [word, ← BitVec.xor_assoc, shift_xor_of_even (by simp), hback]
      rfl
    calc feedAll poly c (b :: bs) = feedAll poly (feed poly c b) bs := rfl
      _ = (shift poly)^[bs.length] (feed poly c b ^^^ word bs) := ih (by omega)
      _ = (shift poly)^[(b :: bs).length] (c ^^^ word (b :: bs)) := by
        rw [hstep, List.length_cons, Function.iterate_succ_apply]

theorem word_injective (hlen : ms.length = ms'.length) (hle : ms.length ≤ w)
    (h : (word ms : BitVec w) = word ms') : ms = ms' := by
  apply List.ext_getElem hlen
  intro i hi hi'
  have hbit := congrArg (fun x => BitVec.getLsbD x i) h
  simp only [word_getLsbD, List.getElem?_eq_getElem hi, List.getElem?_eq_getElem hi'] at hbit
  simpa [show i < w by omega] using hbit

theorem feedAll_append (bs ms : List Bool) :
    feedAll poly c (bs ++ ms) = feedAll poly (feedAll poly c bs) ms := List.foldl_append

theorem feed_injective (htop : poly.msb = true) (b : Bool) :
    Function.Injective fun c : BitVec w => feed poly c b := by
  intro c d h
  exact BitVec.xor_left_inj _ |>.mp (shift_injective htop h)

theorem feedAll_injective (htop : poly.msb = true) (bs : List Bool) :
    Function.Injective fun c : BitVec w => feedAll poly c bs := by
  induction bs with
  | nil => exact fun c d h => h
  | cons b bs ih => exact fun c d h => feed_injective htop b (ih h)

/-- Two messages that differ only in one run no longer than the register leave it in two states. -/
theorem feedAll_burst (htop : poly.msb = true) {before after : List Bool} (hlen : ms.length = ms'.length)
    (hle : ms.length ≤ w) (hne : ms ≠ ms') :
    feedAll poly c (before ++ ms ++ after) ≠ feedAll poly c (before ++ ms' ++ after) := by
  intro h
  simp only [feedAll_append] at h
  have hmid := feedAll_injective htop after h
  have hword : ∀ ns : List Bool, ns.length ≤ w → ∀ e : BitVec w,
      feedAll poly e ns = (shift poly)^[ns.length] (e ^^^ word ns) := fun ns hns e => feedAll_eq_iterate hns
  rw [hword ms hle, hword ms' (hlen ▸ hle), hlen] at hmid
  have hregister := (shift_injective htop).iterate ms'.length hmid
  exact hne (word_injective hlen hle (BitVec.xor_right_inj _ |>.mp hregister))

/-- The same of messages given by where they differ. -/
theorem feedAll_window (htop : poly.msb = true) {xs ys : List Bool} {start : Nat} (hlen : xs.length = ys.length)
    (hne : xs ≠ ys) (hin : ∀ i, xs[i]? ≠ ys[i]? → start ≤ i ∧ i < start + w) :
    feedAll poly c xs ≠ feedAll poly c ys := by
  have hcut : ∀ zs : List Bool, zs = zs.take start ++ (zs.drop start).take w ++ zs.drop (start + w) := by
    intro zs
    rw [← List.drop_drop, List.append_assoc, List.take_append_drop, List.take_append_drop]
  have hbefore : xs.take start = ys.take start := by
    apply List.ext_getElem?
    intro i
    by_contra hi
    have hlt : i < start := by
      by_contra hge
      simp [hge] at hi
    simp only [List.getElem?_take, hlt, if_true] at hi
    exact absurd (hin i hi).1 (by omega)
  have hafter : xs.drop (start + w) = ys.drop (start + w) := by
    apply List.ext_getElem?
    intro i
    by_contra hi
    simp only [List.getElem?_drop] at hi
    exact absurd (hin _ hi).2 (by omega)
  have hmid : (xs.drop start).take w ≠ (ys.drop start).take w := by
    intro h
    apply hne
    rw [hcut xs, hcut ys, hbefore, hafter, h]
  rw [hcut xs, hcut ys, hbefore, hafter]
  apply feedAll_burst htop _ _ hmid
  · simp only [List.length_take, List.length_drop, hlen]
  · simp only [List.length_take]
    omega

end Bursts

section Division

open Polynomial

/-- A bit as a coefficient. -/
def coeffOf (b : Bool) : ZMod 2 := if b then 1 else 0

/-- A register as a polynomial, its lowest bit the highest power. -/
noncomputable def residue (c : BitVec w) : (ZMod 2)[X] :=
  ∑ i ∈ Finset.range w, C (coeffOf (c.getLsbD i)) * X ^ (w - 1 - i)

/-- The divisor a register's polynomial stands for: its leading power is the one the register leaves out. -/
noncomputable def divisor (poly : BitVec w) : (ZMod 2)[X] := X ^ w + residue poly

/-- A message as a polynomial, its first bit the highest power. -/
noncomputable def message (bits : List Bool) : (ZMod 2)[X] :=
  bits.foldl (fun p b => X * p + C (coeffOf b)) 0

variable {poly c d : BitVec w}

theorem coeffOf_xor (a b : Bool) : coeffOf (a ^^ b) = coeffOf a + coeffOf b := by
  cases a <;> cases b <;> decide

theorem residue_xor : residue (c ^^^ d) = residue c + residue d := by
  unfold residue
  rw [← Finset.sum_add_distrib]
  apply Finset.sum_congr rfl
  intro i _
  rw [BitVec.getLsbD_xor, coeffOf_xor, C_add, add_mul]

theorem degree_residue_lt : (residue c).degree < w := by
  apply mem_degreeLT.mp
  apply Submodule.sum_mem
  intro i hi
  rw [Finset.mem_range] at hi
  rw [mem_degreeLT]
  apply lt_of_le_of_lt (degree_C_mul_X_pow_le _ _)
  exact_mod_cast (by omega : w - 1 - i < w)

/-- Moving a register down is multiplying by the unknown, less the power that leaves. -/
theorem X_mul_residue {k : Nat} (c : BitVec (k + 1)) :
    X * residue c = C (coeffOf (c.getLsbD 0)) * X ^ (k + 1) + residue (c >>> 1) := by
  have hout : (c >>> 1).getLsbD k = false := by
    rw [BitVec.getLsbD_ushiftRight]
    exact BitVec.getLsbD_of_ge c (1 + k) (by omega)
  have hlast : C (coeffOf ((c >>> 1).getLsbD k)) * X ^ (k + 1 - 1 - k) = 0 := by
    rw [hout]
    simp [coeffOf]
  unfold residue
  rw [Finset.sum_range_succ', Finset.sum_range_succ, hlast, add_zero, mul_add, Finset.mul_sum, add_comm]
  refine congrArg₂ (· + ·) ?_ ?_
  · rw [Nat.add_sub_cancel, Nat.sub_zero, pow_succ]
    ring
  · apply Finset.sum_congr rfl
    intro i hi
    rw [Finset.mem_range] at hi
    rw [BitVec.getLsbD_ushiftRight, Nat.add_comm 1 i, show k + 1 - 1 - i = k + 1 - 1 - (i + 1) + 1 by omega, pow_succ]
    ring

theorem residue_ofBool {k : Nat} (b : Bool) :
    residue ((BitVec.ofBool b).setWidth (k + 1)) = C (coeffOf b) * X ^ k := by
  unfold residue
  rw [Finset.sum_range_succ']
  have hrest : ∑ i ∈ Finset.range k,
      C (coeffOf (((BitVec.ofBool b).setWidth (k + 1)).getLsbD (i + 1))) * X ^ (k + 1 - 1 - (i + 1)) = 0 := by
    apply Finset.sum_eq_zero
    intro i _
    rw [BitVec.getLsbD_setWidth, BitVec.getLsbD_of_ge (BitVec.ofBool b) (i + 1) (by omega)]
    simp [coeffOf]
  rw [hrest, zero_add]
  simp

theorem add_self_eq_zero (p : (ZMod 2)[X]) : p + p = 0 := CharTwo.add_self_eq_zero p

/-- One bit fed is one step of long division. -/
theorem residue_feed {k : Nat} (poly c : BitVec (k + 1)) (b : Bool) :
    ∃ q, residue (feed poly c b) = X * residue c + C (coeffOf b) * X ^ (k + 1) + q * divisor poly := by
  set e := c ^^^ (BitVec.ofBool b).setWidth (k + 1) with he
  have hmul := X_mul_residue e
  rw [he, residue_xor, residue_ofBool, ← he] at hmul
  refine ⟨C (coeffOf (e.getLsbD 0)), ?_⟩
  have hshift : residue (feed poly c b) = C (coeffOf (e.getLsbD 0)) * residue poly + residue (e >>> 1) := by
    unfold feed shift
    rw [← he]
    split
    next h => rw [residue_xor, h]; simp [coeffOf]
    next h => rw [eq_false_of_ne_true h]; simp [coeffOf]
  rw [hshift, divisor]
  have hzero := add_self_eq_zero (C (coeffOf (e.getLsbD 0)) * X ^ (k + 1))
  linear_combination -hzero - hmul

theorem feedAll_concat {poly c : BitVec w} (bits : List Bool) (b : Bool) :
    feedAll poly c (bits ++ [b]) = feed poly (feedAll poly c bits) b := by
  rw [feedAll_append]
  rfl

theorem message_concat (bits : List Bool) (b : Bool) :
    message (bits ++ [b]) = X * message bits + C (coeffOf b) := by
  unfold message
  rw [List.foldl_append]
  rfl

theorem residue_feedAll_add {k : Nat} (poly c : BitVec (k + 1)) (bits : List Bool) :
    ∃ q, residue (feedAll poly c bits) + divisor poly * q
      = X ^ bits.length * residue c + X ^ (k + 1) * message bits := by
  induction bits using List.reverseRecOn with
  | nil => exact ⟨0, by simp [feedAll, message]⟩
  | append_singleton bits b ih =>
    obtain ⟨q, hq⟩ := ih
    obtain ⟨t, ht⟩ := residue_feed poly (feedAll poly c bits) b
    refine ⟨X * q - t, ?_⟩
    rw [feedAll_concat, message_concat, List.length_append, List.length_singleton, pow_succ, ht]
    linear_combination X * hq

theorem divisor_monic (poly : BitVec w) : (divisor poly).Monic := monic_X_pow_add degree_residue_lt

theorem degree_divisor (poly : BitVec w) : (divisor poly).degree = w := by
  have hlt : (residue poly).degree < ((X : (ZMod 2)[X]) ^ w).degree := by
    rw [degree_X_pow]
    exact degree_residue_lt
  rw [divisor, degree_add_eq_left_of_degree_lt hlt, degree_X_pow]

/-- The register after a message is the remainder of dividing the message, raised by the register's
width, with what the register began with laid over its first bits. -/
theorem residue_feedAll {k : Nat} (poly c : BitVec (k + 1)) (bits : List Bool) :
    residue (feedAll poly c bits)
      = (X ^ bits.length * residue c + X ^ (k + 1) * message bits) %ₘ divisor poly := by
  obtain ⟨q, hq⟩ := residue_feedAll_add poly c bits
  have hdegree : (residue (feedAll poly c bits)).degree < (divisor poly).degree := by
    rw [degree_divisor]
    exact degree_residue_lt
  exact (div_modByMonic_unique q _ (divisor_monic poly) ⟨hq, hdegree⟩).2.symm

end Division

end Checksums
