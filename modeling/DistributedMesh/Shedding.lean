import Mathlib.Tactic.Common
import Mathlib.Tactic.Ring

namespace Shedding

variable {num den budget : Nat}

/-- What a clock slowed by `num` parts in `den` has shed after `elapsed`, of a budget. -/
def shed (num den budget elapsed : Nat) : Nat := min (elapsed * num / den) budget

theorem shed_zero (num den budget : Nat) : shed num den budget 0 = 0 := by
  simp [shed]

theorem shed_le_budget (num den budget elapsed : Nat) : shed num den budget elapsed ≤ budget :=
  Nat.min_le_right _ _

theorem shed_mono {e t : Nat} (h : e ≤ t) : shed num den budget e ≤ shed num den budget t := by
  have hdiv : e * num / den ≤ t * num / den := Nat.div_le_div_right (Nat.mul_le_mul_right num h)
  unfold shed
  omega

/-- No more is shed than time has passed. -/
theorem shed_add_le (hden : 0 < den) (hnum : num ≤ den) {e t : Nat} (h : e ≤ t) :
    shed num den budget t ≤ shed num den budget e + (t - e) := by
  obtain ⟨k, rfl⟩ := Nat.exists_eq_add_of_le h
  have hdiv : (e + k) * num / den ≤ e * num / den + k := by
    have hmul : (e + k) * num ≤ e * num + k * den := by
      rw [Nat.add_mul]
      exact Nat.add_le_add_left (Nat.mul_le_mul_left k hnum) _
    calc (e + k) * num / den ≤ (e * num + k * den) / den := Nat.div_le_div_right hmul
      _ = e * num / den + k := Nat.add_mul_div_right _ _ hden
  unfold shed
  omega

theorem shed_le_elapsed (hden : 0 < den) (hnum : num ≤ den) (elapsed : Nat) :
    shed num den budget elapsed ≤ elapsed := by
  have hle : shed num den budget elapsed ≤ shed num den budget 0 + (elapsed - 0) :=
    shed_add_le hden hnum (Nat.zero_le elapsed)
  rw [shed_zero] at hle
  omega

/-- From its start, a shed keeps to its rate. -/
theorem shed_rate (elapsed : Nat) : den * shed num den budget elapsed ≤ elapsed * num := by
  have hmul : den * (elapsed * num / den) ≤ elapsed * num := Nat.mul_div_le _ _
  have hmin : shed num den budget elapsed ≤ elapsed * num / den := Nat.min_le_left _ _
  exact Nat.le_trans (Nat.mul_le_mul_left den hmin) hmul

/-- Between two moments of one shed its rate is exceeded by less than one unit, for the truncation
at the first moment. -/
theorem shed_rate_between (hden : 0 < den) {e t : Nat} (h : e ≤ t) :
    den * shed num den budget t + 1 ≤ den * shed num den budget e + (t - e) * num + den := by
  by_cases hspent : budget ≤ e * num / den
  · have hdone : shed num den budget e = budget := Nat.min_eq_right hspent
    have hle : den * shed num den budget t ≤ den * shed num den budget e := by
      rw [hdone]
      exact Nat.mul_le_mul_left den (shed_le_budget _ _ _ _)
    have hpos : 1 ≤ (t - e) * num + den := Nat.le_trans hden (Nat.le_add_left _ _)
    omega
  · have hnow : shed num den budget e = e * num / den := Nat.min_eq_left (by omega)
    have hlater : den * shed num den budget t ≤ t * num := shed_rate t
    have hmod : e * num % den < den := Nat.mod_lt _ hden
    have hsplit : den * (e * num / den) + e * num % den = e * num := Nat.div_add_mod _ _
    have htime : t * num = e * num + (t - e) * num := by
      rw [← Nat.add_mul]
      congr 1
      omega
    rw [hnow]
    omega

/-- A clock: what it showed at `since`, and what it has to shed from there on. -/
structure Pace where
  reference : Nat
  since : Nat
  budget : Nat

namespace Pace

def shows (num den : Nat) (c : Pace) (t : Nat) : Nat :=
  c.reference + (t - c.since) - shed num den c.budget (t - c.since)

def unshed (num den : Nat) (c : Pace) (t : Nat) : Nat := c.budget - shed num den c.budget (t - c.since)

variable {c : Pace} {t u : Nat}

@[simp] theorem shows_since (num den : Nat) (c : Pace) : c.shows num den c.since = c.reference := by
  simp [shows, shed_zero]

@[simp] theorem unshed_since (num den : Nat) (c : Pace) : c.unshed num den c.since = c.budget := by
  simp [unshed, shed_zero]

/-- What a clock has not shed, it still falls behind by. -/
theorem shows_add_unshed (hden : 0 < den) (hnum : num ≤ den) (ht : c.since ≤ t) (htu : t ≤ u) :
    c.shows num den u + c.unshed num den t = c.shows num den t + (u - t) + c.unshed num den u := by
  have hmono : shed num den c.budget (t - c.since) ≤ shed num den c.budget (u - c.since) :=
    shed_mono (by omega)
  have hbudget := shed_le_budget num den c.budget (u - c.since)
  have htime : shed num den c.budget (t - c.since) ≤ t - c.since := shed_le_elapsed hden hnum _
  have hlater : shed num den c.budget (u - c.since) ≤ u - c.since := shed_le_elapsed hden hnum _
  unfold shows unshed
  omega

theorem shows_mono (hden : 0 < den) (hnum : num ≤ den) (htu : t ≤ u) :
    c.shows num den t ≤ c.shows num den u := by
  have hstep : shed num den c.budget (u - c.since) ≤
      shed num den c.budget (t - c.since) + ((u - c.since) - (t - c.since)) :=
    shed_add_le hden hnum (by omega)
  have htime : shed num den c.budget (t - c.since) ≤ t - c.since := shed_le_elapsed hden hnum _
  unfold shows
  omega

/-- A clock never runs fast. -/
theorem shows_le (hden : 0 < den) (hnum : num ≤ den) (ht : c.since ≤ t) (htu : t ≤ u) :
    c.shows num den u ≤ c.shows num den t + (u - t) := by
  have hmono : shed num den c.budget (t - c.since) ≤ shed num den c.budget (u - c.since) :=
    shed_mono (by omega)
  have htime : shed num den c.budget (t - c.since) ≤ t - c.since := shed_le_elapsed hden hnum _
  unfold shows
  omega

/-- From its reference on, a clock keeps to its rate. -/
theorem rate_since (hden : 0 < den) (hnum : num ≤ den) (t : Nat) :
    den * c.reference + (t - c.since) * (den - num) ≤ den * c.shows num den t := by
  have hrate : den * shed num den c.budget (t - c.since) ≤ (t - c.since) * num := shed_rate _
  have htime : shed num den c.budget (t - c.since) ≤ t - c.since := shed_le_elapsed hden hnum _
  unfold shows
  generalize shed num den c.budget (t - c.since) = gone at hrate htime ⊢
  generalize t - c.since = e at hrate htime ⊢
  obtain ⟨k, rfl⟩ := Nat.exists_eq_add_of_le hnum
  rw [Nat.add_sub_assoc htime, Nat.mul_add, Nat.add_sub_cancel_left, Nat.mul_sub]
  have hmul : (num + k) * e = e * num + e * k := by ring
  omega

/-- Between two moments a clock keeps to its rate but for one unit. -/
theorem rate_between (hden : 0 < den) (hnum : num ≤ den) (ht : c.since ≤ t) (htu : t ≤ u) :
    den * c.shows num den t + (u - t) * (den - num) + 1 ≤ den * c.shows num den u + den := by
  have hrate : den * shed num den c.budget (u - c.since) + 1 ≤
      den * shed num den c.budget (t - c.since) + ((u - c.since) - (t - c.since)) * num + den :=
    shed_rate_between hden (by omega)
  have htime : shed num den c.budget (t - c.since) ≤ t - c.since := shed_le_elapsed hden hnum _
  have hlater : shed num den c.budget (u - c.since) ≤ u - c.since := shed_le_elapsed hden hnum _
  have hspan : (u - c.since) - (t - c.since) = u - t := by omega
  rw [hspan] at hrate
  unfold shows
  generalize shed num den c.budget (t - c.since) = gone at hrate htime ⊢
  generalize shed num den c.budget (u - c.since) = later at hrate hlater ⊢
  obtain ⟨k, rfl⟩ := Nat.exists_eq_add_of_le hnum
  -- What each moment shows past the reference.
  obtain ⟨m, hm⟩ := Nat.exists_eq_add_of_le htime
  obtain ⟨n, hn⟩ := Nat.exists_eq_add_of_le hlater
  have hfirst : c.reference + (t - c.since) - gone = c.reference + m := by omega
  have hsecond : c.reference + (u - c.since) - later = c.reference + n := by omega
  have hsum : gone + m + (u - t) = later + n := by omega
  have hmul : (num + k) * gone + (num + k) * m + (u - t) * num + (u - t) * k =
      (num + k) * later + (num + k) * n := by
    calc (num + k) * gone + (num + k) * m + (u - t) * num + (u - t) * k
        = (num + k) * (gone + m + (u - t)) := by ring
      _ = (num + k) * later + (num + k) * n := by rw [hsum, Nat.mul_add]
  rw [hfirst, hsecond, Nat.add_sub_cancel_left, Nat.mul_add, Nat.mul_add]
  omega

end Pace

end Shedding
