import Mathlib.Data.List.Basic
import Mathlib.Data.List.Lex
import Mathlib.Tactic.Ring

namespace Decimals

/-- A number in decimal, padded with zeros to a width. -/
def padded (width n : Nat) : List Char := (Nat.toDigits 10 n).leftpad width '0'

/-- The number decimal digits stand for. -/
def valueOf (ds : List Char) : Nat := Nat.ofDigitChars 10 ds 0

section Digits

variable {cs ds : List Char} {c : Char}

theorem digit_bounds (h : c.isDigit = true) : 48 ≤ c.toNat ∧ c.toNat ≤ 57 :=
  Char.isDigit_iff_toNat.mp h

theorem valueOf_cons (c : Char) (cs : List Char) :
    valueOf (c :: cs) = 10 ^ cs.length * (c.toNat - 48) + valueOf cs := by
  unfold valueOf
  rw [Nat.ofDigitChars_cons, Nat.ofDigitChars_eq_ofDigitChars_zero, Nat.mul_zero, Nat.zero_add]
  rfl

theorem valueOf_lt (h : ∀ c ∈ cs, c.isDigit = true) : valueOf cs < 10 ^ cs.length := by
  induction cs with
  | nil => simp [valueOf]
  | cons c cs ih =>
    have hc := digit_bounds (h c List.mem_cons_self)
    have hrest := ih fun d hd => h d (List.mem_cons_of_mem c hd)
    have hmul : 10 ^ cs.length * (c.toNat - 48) ≤ 10 ^ cs.length * 9 := Nat.mul_le_mul_left _ (by omega)
    rw [valueOf_cons, List.length_cons, Nat.pow_succ]
    omega

/-- Digits of one width are ordered as the numbers they stand for. -/
theorem lt_iff_valueOf_lt (hlen : cs.length = ds.length) (hc : ∀ c ∈ cs, c.isDigit = true)
    (hd : ∀ d ∈ ds, d.isDigit = true) : cs < ds ↔ valueOf cs < valueOf ds := by
  induction cs generalizing ds with
  | nil =>
    cases ds with
    | nil => simp
    | cons d ds => simp at hlen
  | cons c cs ih =>
    cases ds with
    | nil => simp at hlen
    | cons d ds =>
      rw [List.length_cons, List.length_cons, Nat.add_right_cancel_iff] at hlen
      have hbc := digit_bounds (hc c List.mem_cons_self)
      have hbd := digit_bounds (hd d List.mem_cons_self)
      have hcs := fun x hx => hc x (List.mem_cons_of_mem c hx)
      have hds := fun x hx => hd x (List.mem_cons_of_mem d hx)
      have hlc := valueOf_lt hcs
      have hld := valueOf_lt hds
      rw [List.cons_lt_cons_iff, ih hlen hcs hds, valueOf_cons, valueOf_cons, hlen]
      rw [hlen] at hlc
      rcases Nat.lt_trichotomy c.toNat d.toNat with hlt | heq | hgt
      · have hstep : 10 ^ ds.length * (c.toNat - 48 + 1) ≤ 10 ^ ds.length * (d.toNat - 48) :=
          Nat.mul_le_mul_left _ (by omega)
        rw [Nat.mul_add, Nat.mul_one] at hstep
        have hcd : c < d := hlt
        simp only [hcd, true_or, true_iff]
        omega
      · have hcd : c = d := Char.toNat_inj.mp heq
        subst hcd
        simp
      · have hstep : 10 ^ ds.length * (d.toNat - 48 + 1) ≤ 10 ^ ds.length * (c.toNat - 48) :=
          Nat.mul_le_mul_left _ (by omega)
        rw [Nat.mul_add, Nat.mul_one] at hstep
        have hcd : ¬ c < d := fun h => absurd (show c.toNat < d.toNat from h) (by omega)
        have hne : ¬ c = d := fun h => by
          rw [h] at hgt
          omega
        simp only [hcd, hne, false_and, or_self, false_iff]
        omega

end Digits

section Padded

variable {w a b : Nat}

theorem length_padded (hw : 0 < w) (h : a < 10 ^ w) : (padded w a).length = w := by
  have hle := (Nat.length_toDigits_le_iff (by decide : 1 < 10) hw).mpr h
  unfold padded List.leftpad
  rw [List.length_append, List.length_replicate]
  omega

theorem isDigit_padded (w a : Nat) : ∀ c ∈ padded w a, c.isDigit = true := by
  intro c hc
  rcases List.mem_append.mp hc with hzero | hdigit
  · rw [List.eq_of_mem_replicate hzero]
    decide
  · exact Nat.isDigit_of_mem_toDigits (by decide) (by decide) hdigit

theorem valueOf_padded (w a : Nat) : valueOf (padded w a) = a := by
  unfold valueOf padded List.leftpad
  rw [Nat.ofDigitChars_append, Nat.ofDigitChars_replicate_zero, Nat.mul_zero, Nat.ofDigitChars_ten_toDigits]

theorem padded_lt_iff (hw : 0 < w) (ha : a < 10 ^ w) (hb : b < 10 ^ w) : padded w a < padded w b ↔ a < b := by
  rw [lt_iff_valueOf_lt ((length_padded hw ha).trans (length_padded hw hb).symm) (isDigit_padded w a)
    (isDigit_padded w b), valueOf_padded, valueOf_padded]

theorem padded_inj (h : padded w a = padded w b) : a = b := by
  have hvalue := congrArg valueOf h
  rwa [valueOf_padded, valueOf_padded] at hvalue

end Padded

/-- Where the fronts have one length, they are compared first. -/
theorem append_lt_append_iff {α : Type} [LinearOrder α] {as bs as' bs' : List α} (hlen : as.length = bs.length) :
    as ++ as' < bs ++ bs' ↔ as < bs ∨ (as = bs ∧ as' < bs') := by
  induction as generalizing bs with
  | nil =>
    cases bs with
    | nil => simp
    | cons b bs => simp at hlen
  | cons a as ih =>
    cases bs with
    | nil => simp at hlen
    | cons b bs =>
      rw [List.length_cons, List.length_cons, Nat.add_right_cancel_iff] at hlen
      rw [List.cons_append, List.cons_append, List.cons_lt_cons_iff, List.cons_lt_cons_iff, ih hlen, List.cons.injEq]
      tauto

end Decimals
