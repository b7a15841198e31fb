import Mathlib.Data.List.Basic
import DistributedMesh.ClockTime

namespace DistributedMesh.RafkaTime

open Shedding

theorem size_eq : (UInt64.size : Int) = 18446744073709551616 := by decide

theorem asU64_le {x : Int} (h : 0 ≤ x) : (asU64 x : Int) ≤ x := by
  unfold asU64
  rw [size_eq]
  omega

theorem asU64_natCast_le (x : Nat) : asU64 x ≤ x := by
  have hle := asU64_le (Int.natCast_nonneg x)
  omega

theorem asU64_of_lt {x : Nat} (h : x < UInt64.size) : asU64 x = x := by
  unfold asU64
  rw [Int.emod_eq_of_lt (by omega) (by omega)]
  exact Int.toNat_natCast x

/-- A lag's offset is at least the lag below zero: a cast never makes it lower. -/
theorem neg_le_offset (x : Nat) : -(x : Int) ≤ asI64 (-asI64 x) := by
  unfold asI64 Int.bmod
  rw [size_eq]
  dsimp only
  split
  next =>
    split
    next => omega
    next => omega
  next =>
    split
    next => omega
    next => omega

theorem rate_pos : 0 < million := by decide

theorem rate_le : maxSlewPpm ≤ million := by decide

namespace TimeState

/-- The clock `s` runs at the pace `c`, at the instant `t`. -/
structure Runs (s : TimeState) (c : Pace) (t : Nat) : Prop where
  anchor : s.anchor = some ⟨c.reference, c.since⟩
  slew : (s.slew = none ∧ c.budget = 0) ∨ s.slew = some ⟨maxSlewPpm, c.budget⟩
  drift : s.driftPpm = 0
  since : c.since ≤ t
  last : s.last * nsPerMs ≤ c.shows maxSlewPpm million t

section Runs

variable {s : TimeState} {c : Pace} {t now : Nat}

theorem Runs.advancedNs (h : s.Runs c t) (now : Nat) :
    s.advancedNs ⟨c.reference, c.since⟩ now = c.shows maxSlewPpm million now := by
  have hshed : ∀ e, s.shedNs e = shed maxSlewPpm million c.budget e := by
    intro e
    unfold TimeState.shedNs
    rcases h.slew with ⟨hnone, hbudget⟩ | hsome
    · rw [hnone, hbudget]
      simp [shed]
    · rw [hsome]
  simp only [TimeState.advancedNs, driven, h.drift, if_true, hshed]
  rfl

theorem Runs.until (h : s.Runs c t) (ht : t ≤ now) : s.Runs c now :=
  ⟨h.anchor, h.slew, h.drift, Nat.le_trans h.since ht,
    Nat.le_trans h.last (c.shows_mono rate_pos rate_le ht)⟩

theorem Runs.read (h : s.Runs c t) (now : Nat) :
    s.read now = max (asU64 (c.shows maxSlewPpm million now / nsPerMs : Nat)) s.last := by
  simp only [TimeState.read, h.anchor, h.advancedNs]

/-- A reading is never ahead of the clock. -/
theorem Runs.read_le (h : s.Runs c t) (ht : t ≤ now) :
    s.read now * nsPerMs ≤ c.shows maxSlewPpm million now := by
  have hlast := (h.until ht).last
  have hcast := asU64_natCast_le (c.shows maxSlewPpm million now / nsPerMs)
  have hfloor : c.shows maxSlewPpm million now / nsPerMs * nsPerMs ≤ c.shows maxSlewPpm million now :=
    Nat.div_mul_le_self _ _
  rw [h.read]
  rcases Nat.le_total (asU64 (c.shows maxSlewPpm million now / nsPerMs : Nat)) s.last with hmax | hmax
  · rw [Nat.max_eq_right hmax]
    exact hlast
  · rw [Nat.max_eq_left hmax]
    exact Nat.le_trans (Nat.mul_le_mul_right nsPerMs hcast) hfloor

theorem last_le_read (s : TimeState) (now : Nat) : s.last ≤ s.read now := by
  unfold TimeState.read
  split
  next => exact Nat.le_max_right _ _
  next => exact Nat.le_refl _

/-- Below the end of 64-bit time, a reading is the clock in whole milliseconds. -/
theorem Runs.read_eq (h : s.Runs c t) (ht : t ≤ now)
    (hfits : c.shows maxSlewPpm million now < UInt64.size * nsPerMs) :
    s.read now = c.shows maxSlewPpm million now / nsPerMs := by
  have hlt : c.shows maxSlewPpm million now / nsPerMs < UInt64.size :=
    Nat.div_lt_of_lt_mul (by rw [Nat.mul_comm]; exact hfits)
  have hlast : s.last ≤ c.shows maxSlewPpm million now / nsPerMs :=
    (Nat.le_div_iff_mul_le (by decide)).mpr (h.until ht).last
  rw [h.read, asU64_of_lt hlt, Nat.max_eq_left hlast]

theorem Runs.windowed (h : s.Runs c t) (window : List (Nat × Int)) (newest : Nat) :
    ({ s with window := window, newestStamp := newest } : TimeState).Runs c t :=
  ⟨h.anchor, h.slew, h.drift, h.since, h.last⟩

/-- What an observation does to a running clock: nothing to its pace, a step ahead to the stamp, or
a new shed from where the clock stands. -/
inductive Observes (c : Pace) (stampMs now last : Nat) : TimeState × Observed → Prop where
  | kept {s : TimeState} {what : Observed} (h : s.Runs c now) (hlast : s.last = last)
    (hstep : ∀ byMs, what ≠ .stepped byMs)
    (hslew : ∀ best excess ppm recovers, what ≠ .slewStarted best excess ppm recovers) :
    Observes c stampMs now last (s, what)
  | stepped {s : TimeState} {byMs : Nat} (h : s.Runs ⟨stampMs * nsPerMs, now, 0⟩ now)
    (hlast : last ≤ s.last) (hahead : c.shows maxSlewPpm million now < stampMs * nsPerMs) :
    Observes c stampMs now last (s, .stepped byMs)
  | slew {s : TimeState} {best : Int} {excess recovers : Nat}
    (h : s.Runs ⟨c.shows maxSlewPpm million now, now, excess * nsPerMs⟩ now) (hlast : last ≤ s.last)
    (hexcess : (excess + jitterAllowanceMs) * nsPerMs + stampMs * nsPerMs ≤
      c.shows maxSlewPpm million now) :
    Observes c stampMs now last (s, .slewStarted best excess maxSlewPpm recovers)

/-- The excess a window sheds, past the allowance, is no more than the lag of its newest sample. -/
theorem excess_le {offsets : List Int} {lag : Nat} (hlag : asI64 (-asI64 lag) ∈ offsets)
    (hbest : ¬ offsets.max?.getD 0 ≥ -(jitterAllowanceMs : Int)) :
    asU64 (-(offsets.max?.getD 0)) - jitterAllowanceMs + jitterAllowanceMs ≤ lag := by
  have hoffset := neg_le_offset lag
  have hmax : asI64 (-asI64 lag) ≤ offsets.max?.getD 0 := by
    cases hm : offsets.max? with
    | none =>
      rw [List.max?_eq_none_iff] at hm
      rw [hm] at hlag
      simp at hlag
    | some best => exact (List.max?_eq_some_iff.mp hm).2 _ hlag
  generalize offsets.max?.getD 0 = best at hbest hmax ⊢
  have hpos : 0 ≤ -best := by omega
  have hcast := asU64_le hpos
  omega

theorem Runs.decideWindow (h : s.Runs c t) (ht : t ≤ now) {offsets : List Int} {stampMs lag : Nat}
    (hlag : asI64 (-asI64 lag) ∈ offsets)
    (hstamp : lag * nsPerMs + stampMs * nsPerMs ≤ c.shows maxSlewPpm million now) :
    Observes c stampMs now s.last (s.decideWindow now offsets) := by
  unfold TimeState.decideWindow
  dsimp only
  split
  next =>
    refine .kept ⟨h.anchor, h.slew, h.drift, (h.until ht).since, (h.until ht).last⟩ rfl (fun _ => ?_)
      (fun _ _ _ _ => ?_)
    · simp
    · simp
  next hbest =>
    have hexcess := excess_le hlag hbest
    generalize asU64 (-(offsets.max?.getD 0)) - jitterAllowanceMs = excess at hexcess ⊢
    have hrebase : ({ s with window := [], last := s.read now } : TimeState).rebase now =
        { s with
          window := []
          last := s.read now
          anchor := some ⟨c.shows maxSlewPpm million now, now⟩
          slew := s.slew.map fun w =>
            { w with remainingNs := w.remainingNs - s.shedNs (s.driven (now - c.since)) } } := by
      rw [← h.advancedNs now]
      simp only [TimeState.rebase, h.anchor]
      rfl
    have hread : ({ s with window := [] } : TimeState).read now = s.read now := rfl
    rw [hread, hrebase]
    refine .slew ⟨rfl, Or.inr rfl, h.drift, Nat.le_refl _, ?_⟩ (s.last_le_read now) ?_
    · rw [Pace.shows_since (c := ⟨c.shows maxSlewPpm million now, now, excess * nsPerMs⟩)]
      exact h.read_le ht
    · have hmul := Nat.mul_le_mul_right nsPerMs hexcess
      omega

/-- One observation of a running clock. -/
theorem Runs.observeAt (h : s.Runs c t) (ht : t ≤ now) (stampMs : Nat) :
    Observes c stampMs now s.last (s.observeAt stampMs now) := by
  have hnow := h.until ht
  unfold TimeState.observeAt
  split
  next hnone =>
    rw [h.anchor] at hnone
    simp at hnone
  next a ha =>
    obtain rfl : ⟨c.reference, c.since⟩ = a := Option.some.inj (h.anchor.symm.trans ha)
    split
    next => exact .kept hnow rfl (by simp) (by simp)
    next =>
      split
      next => exact .kept hnow rfl (by simp) (by simp)
      next =>
        have hstamped : ({ s with newestStamp := stampMs } : TimeState).Runs c t := h.windowed _ _
        have hmax : max (c.shows maxSlewPpm million now) (s.last * nsPerMs) =
            c.shows maxSlewPpm million now := Nat.max_eq_left hnow.last
        dsimp only
        rw [hstamped.advancedNs now, hmax]
        split
        next hahead =>
          refine .stepped ⟨rfl, Or.inl ⟨rfl, rfl⟩, h.drift, Nat.le_refl _, ?_⟩ (s.last_le_read now) hahead
          rw [Pace.shows_since (c := ⟨stampMs * nsPerMs, now, 0⟩)]
          exact Nat.le_trans (h.read_le ht) (Nat.le_of_lt hahead)
        next hbehind =>
          split
          next => exact .kept (hnow.windowed _ _) rfl (by simp) (by simp)
          next =>
            have hlag : (c.shows maxSlewPpm million now - stampMs * nsPerMs) / nsPerMs * nsPerMs ≤
                c.shows maxSlewPpm million now - stampMs * nsPerMs := Nat.div_mul_le_self _ _
            refine hstamped.decideWindow ht ?_ (Nat.add_le_of_le_sub (Nat.le_of_not_lt hbehind) hlag)
            simp [TimeState.sample]

end Runs

end TimeState

/-- What one call does to the pace of a running clock. -/
inductive Moves (c : Pace) : ClockCall → ClockAnswer → Pace → Prop where
  | kept {call : ClockCall} {a : ClockAnswer} (hstep : a.isStep = false) (hnone : a.excessMs = 0) :
    Moves c call a c
  | stepped {stampMs now byMs : Nat} (hahead : c.shows maxSlewPpm million now < stampMs * nsPerMs) :
    Moves c (.observe stampMs now) (.observed (.stepped byMs)) ⟨stampMs * nsPerMs, now, 0⟩
  | slew {stampMs now excess recovers : Nat} {best : Int}
    (hexcess : (excess + jitterAllowanceMs) * nsPerMs + stampMs * nsPerMs ≤
      c.shows maxSlewPpm million now) :
    Moves c (.observe stampMs now) (.observed (.slewStarted best excess maxSlewPpm recovers))
      ⟨c.shows maxSlewPpm million now, now, excess * nsPerMs⟩

/-- From `c` at `t` to `c'` at `t'` without a step, with `excess` milliseconds of sheds started. -/
structure Lapse (c : Pace) (t : Nat) (c' : Pace) (t' excess : Nat) : Prop where
  time : t ≤ t'
  fast : c'.shows maxSlewPpm million t' ≤ c.shows maxSlewPpm million t + (t' - t)
  slow : c' = c ∨ (t ≤ c'.since ∧
    million * c.shows maxSlewPpm million t + (c'.since - t) * (million - maxSlewPpm) + 1 ≤
      million * c'.reference + million)
  behind : c.shows maxSlewPpm million t + (t' - t) + c'.unshed maxSlewPpm million t' ≤
    c'.shows maxSlewPpm million t' + c.unshed maxSlewPpm million t + excess * nsPerMs

namespace Lapse

variable {c c' : Pace} {t t' now excess : Nat}

theorem refl (c : Pace) (t : Nat) : Lapse c t c t 0 :=
  ⟨Nat.le_refl t, by omega, Or.inl rfl, by omega⟩

theorem kept (h : Lapse c t c' t' excess) (hs : c'.since ≤ t') (ht : t' ≤ now) :
    Lapse c t c' now excess := by
  have htime := h.time
  have hfast := h.fast
  have hbehind := h.behind
  have hle : c'.shows maxSlewPpm million now ≤ c'.shows maxSlewPpm million t' + (now - t') :=
    c'.shows_le rate_pos rate_le hs ht
  have hshed : c'.shows maxSlewPpm million now + c'.unshed maxSlewPpm million t' =
      c'.shows maxSlewPpm million t' + (now - t') + c'.unshed maxSlewPpm million now :=
    c'.shows_add_unshed rate_pos rate_le hs ht
  exact ⟨by omega, by omega, h.slow, by omega⟩

/-- Over the whole lapse the clock keeps to its rate, but for less than one unit. -/
theorem rate (h : Lapse c t c' t' excess) (hs : c.since ≤ t) (hs' : c'.since ≤ t') :
    million * c.shows maxSlewPpm million t + (t' - t) * (million - maxSlewPpm) + 1 ≤
      million * c'.shows maxSlewPpm million t' + million := by
  rcases h.slow with rfl | ⟨hsince, hslow⟩
  · exact c'.rate_between rate_pos rate_le hs h.time
  · have hrate := c'.rate_since rate_pos rate_le (t := t')
    have hsum : t' - t = (c'.since - t) + (t' - c'.since) := by omega
    rw [hsum, Nat.add_mul]
    omega

theorem slew (h : Lapse c t c' now excess) (hs : c.since ≤ t) (hs' : c'.since ≤ now) (e : Nat) :
    Lapse c t ⟨c'.shows maxSlewPpm million now, now, e * nsPerMs⟩ now (excess + e) := by
  have hbehind := h.behind
  refine ⟨h.time, ?_, Or.inr ⟨h.time, h.rate hs hs'⟩, ?_⟩
  · rw [Pace.shows_since (c := ⟨c'.shows maxSlewPpm million now, now, e * nsPerMs⟩)]
    exact h.fast
  · rw [Pace.shows_since (c := ⟨c'.shows maxSlewPpm million now, now, e * nsPerMs⟩),
      Pace.unshed_since (c := ⟨c'.shows maxSlewPpm million now, now, e * nsPerMs⟩), Nat.add_mul]
    dsimp only
    omega

/-- One move without a step lapses. -/
theorem move (h : Lapse c t c' t' excess) (hs : c.since ≤ t) (hs' : c'.since ≤ t') {call : ClockCall}
    (ht : t' ≤ call.now) {a : ClockAnswer} {c'' : Pace} (hm : Moves c' call a c'')
    (hno : a.isStep = false) : Lapse c t c'' call.now (excess + a.excessMs) := by
  have hnow := h.kept hs' ht
  cases hm with
  | kept _ hnone =>
    rw [hnone]
    exact hnow
  | stepped => simp [ClockAnswer.isStep] at hno
  | slew => exact hnow.slew hs (Nat.le_trans hs' ht) _

end Lapse

namespace TimeState

variable {s : TimeState} {c : Pace} {t : Nat}

/-- A reading leaves the clock at its pace. -/
theorem Runs.readingAt (h : s.Runs c t) {now : Nat} (ht : t ≤ now) :
    (s.readingAt now).1.Runs c now ∧ (s.readingAt now).1.last = s.read now ∧
      (s.readingAt now).2 = some (s.read now) := by
  have hread : s.readingAt now = ({ s with last := s.read now }, some (s.read now)) := by
    simp only [TimeState.readingAt, h.anchor]
  rw [hread]
  exact ⟨⟨h.anchor, h.slew, h.drift, (h.until ht).since, h.read_le ht⟩, rfl, rfl⟩

/-- One call keeps a clock running, and its last reading only grows. -/
theorem Runs.step (h : s.Runs c t) {call : ClockCall} (ht : t ≤ call.now) :
    ∃ c', (s.step call).1.Runs c' call.now ∧ s.last ≤ (s.step call).1.last ∧
      Moves c call (s.step call).2 c' := by
  cases call with
  | reading now =>
    obtain ⟨hruns, hlast, _⟩ := h.readingAt ht
    exact ⟨c, hruns, Nat.le_trans (s.last_le_read now) (Nat.le_of_eq hlast.symm), .kept rfl rfl⟩
  | observe stampMs now =>
    have hnow : t ≤ now := ht
    have hobserves := h.observeAt hnow stampMs
    simp only [TimeState.step]
    generalize s.observeAt stampMs now = out at hobserves
    cases hobserves with
    | @kept s' what hruns hlast hstep hslew =>
      refine ⟨c, hruns, Nat.le_of_eq hlast.symm, ?_⟩
      cases what with
      | stepped byMs => exact absurd rfl (hstep byMs)
      | slewStarted best excess ppm recovers => exact absurd rfl (hslew best excess ppm recovers)
      | within | collecting | ignored => exact .kept rfl rfl
    | stepped hruns hlast hahead => exact ⟨_, hruns, hlast, .stepped hahead⟩
    | slew hruns hlast hexcess => exact ⟨_, hruns, hlast, .slew hexcess⟩

/-- What every move keeps, a running clock keeps over any calls; its last reading only grows. -/
theorem Runs.run (h : s.Runs c t) {calls : List ClockCall} (ho : Ordered t calls)
    {P : Pace → Nat → Prop} (hP : P c t)
    (hmove : ∀ c t call a c', call ∈ calls → c.since ≤ t → t ≤ call.now → Moves c call a c' →
      P c t → P c' call.now) :
    (∃ c', (s.run calls).Runs c' (lastInstant t calls) ∧ P c' (lastInstant t calls)) ∧
      s.last ≤ (s.run calls).last := by
  induction calls generalizing s c t with
  | nil => exact ⟨⟨c, h, hP⟩, Nat.le_refl _⟩
  | cons call calls ih =>
    obtain ⟨c', hruns, hlast, hm⟩ := h.step ho.1
    have hfirst : P c' call.now := hmove c t call _ c' List.mem_cons_self h.since ho.1 hm hP
    obtain ⟨hrest, hlater⟩ := ih hruns ho.2 hfirst fun c t call' a c' hmem =>
      hmove c t call' a c' (List.mem_cons_of_mem _ hmem)
    exact ⟨hrest, Nat.le_trans hlast hlater⟩

/-- Calls answered with no step lapse. -/
theorem Runs.lapse (h : s.Runs c t) {calls : List ClockCall} (ho : Ordered t calls)
    (hno : ∀ a ∈ s.answers calls, a.isStep = false) {c₀ : Pace} {t₀ excess : Nat} (hs : c₀.since ≤ t₀)
    (hl : Lapse c₀ t₀ c t excess) : ∃ c', (s.run calls).Runs c' (lastInstant t calls) ∧
      Lapse c₀ t₀ c' (lastInstant t calls) (excess + ((s.answers calls).map ClockAnswer.excessMs).sum) := by
  induction calls generalizing s c t excess with
  | nil => exact ⟨c, h, hl⟩
  | cons call calls ih =>
    obtain ⟨c', hruns, _, hm⟩ := h.step ho.1
    have hfirst := hl.move hs h.since ho.1 hm (hno _ List.mem_cons_self)
    have hrest := ih hruns ho.2 (fun a ha => hno a (List.mem_cons_of_mem _ ha)) hfirst
    rw [answers, List.map_cons, List.sum_cons, ← Nat.add_assoc]
    exact hrest

/-- A clock runs at one pace. -/
theorem Runs.unique (h : s.Runs c t) {c' : Pace} {t' : Nat} (h' : s.Runs c' t') : c = c' := by
  have hanchor := Option.some.inj (h.anchor.symm.trans h'.anchor)
  have hslew : c.budget = c'.budget := by
    rcases h.slew with ⟨hs, hb⟩ | hs
    · rcases h'.slew with ⟨_, hb'⟩ | hs'
      · rw [hb, hb']
      · simp [hs] at hs'
    · rcases h'.slew with ⟨hs', _⟩ | hs'
      · simp [hs] at hs'
      · simp only [hs, Option.some.injEq, Slew.mk.injEq] at hs'
        exact hs'.2
  cases c
  cases c'
  simp_all

/-- The clock as a read at `now` would answer it, in nanoseconds. -/
def clockNs (s : TimeState) (now : Nat) : Nat :=
  match s.anchor with
  | some a => max (s.advancedNs a now) (s.last * nsPerMs)
  | none => s.last * nsPerMs

/-- What of the shed in progress is not shed at `now`. -/
def unshedNs (s : TimeState) (now : Nat) : Nat :=
  match s.anchor, s.slew with
  | some a, some w => w.remainingNs - s.shedNs (s.driven (now - a.since))
  | _, _ => 0

theorem Runs.clockNs (h : s.Runs c t) {now : Nat} (ht : t ≤ now) :
    s.clockNs now = c.shows maxSlewPpm million now := by
  simp only [TimeState.clockNs, h.anchor, h.advancedNs]
  exact Nat.max_eq_left (h.until ht).last

theorem Runs.unshedNs (h : s.Runs c t) (now : Nat) :
    s.unshedNs now = c.unshed maxSlewPpm million now := by
  unfold TimeState.unshedNs Pace.unshed
  rcases h.slew with ⟨hslew, hbudget⟩ | hslew
  · simp [h.anchor, hslew, hbudget]
  · simp [h.anchor, hslew, TimeState.shedNs, driven, h.drift]

end TimeState

theorem Ordered.le_last {t : Nat} {calls : List ClockCall} (h : Ordered t calls) : t ≤ lastInstant t calls := by
  induction calls generalizing t with
  | nil => exact Nat.le_refl t
  | cons call calls ih => exact Nat.le_trans h.1 (ih h.2)

/-- A clock after its one adoption. -/
def adopted (referenceMs t : Nat) : TimeState := (TimeState.unadopted.adoptAt referenceMs t).1

theorem adopted_runs (referenceMs t : Nat) :
    (adopted referenceMs t).Runs ⟨referenceMs * nsPerMs, t, 0⟩ t :=
  ⟨rfl, Or.inl ⟨rfl, rfl⟩, rfl, Nat.le_refl t, by simp [adopted, TimeState.unadopted, TimeState.adoptAt]⟩

/-- The adopted reference and every stamp, with the time from its instant to `t`, stay below the end
of 64-bit time. -/
def Fits (t referenceMs t₀ : Nat) (calls : List ClockCall) : Prop :=
  referenceMs * nsPerMs + (t - t₀) < UInt64.size * nsPerMs ∧
    ∀ stampMs now, ClockCall.observe stampMs now ∈ calls →
      stampMs * nsPerMs + (t - now) < UInt64.size * nsPerMs

theorem Ordered.now_le_last {t : Nat} {calls : List ClockCall} (h : Ordered t calls) {call : ClockCall}
    (hmem : call ∈ calls) : call.now ≤ lastInstant t calls := by
  induction calls generalizing t with
  | nil => simp at hmem
  | cons head calls ih =>
    rcases List.mem_cons.mp hmem with rfl | hmem
    · exact h.2.le_last
    · exact ih h.2 hmem

/-- A clock that cannot reach the end of 64-bit time by `T`. -/
def Below (T : Nat) (c : Pace) (t : Nat) : Prop :=
  c.shows maxSlewPpm million t + (T - t) < UInt64.size * nsPerMs

theorem Below.shows {T t now : Nat} {c : Pace} (h : Below T c t) (hs : c.since ≤ t) (ht : t ≤ now)
    (hT : now ≤ T) : Below T c now := by
  have hle : c.shows maxSlewPpm million now ≤ c.shows maxSlewPpm million t + (now - t) :=
    c.shows_le rate_pos rate_le hs ht
  unfold Below at h ⊢
  omega

theorem Below.move {T t : Nat} {c c' : Pace} {call : ClockCall} {a : ClockAnswer} (h : Below T c t)
    (hs : c.since ≤ t) (ht : t ≤ call.now) (hT : call.now ≤ T) (hm : Moves c call a c')
    (hstamp : ∀ stampMs now, call = .observe stampMs now →
      stampMs * nsPerMs + (T - now) < UInt64.size * nsPerMs) : Below T c' call.now := by
  have hnow := h.shows hs ht hT
  cases hm with
  | kept => exact hnow
  | @stepped stampMs now byMs hahead =>
    unfold Below
    rw [ClockCall.now, Pace.shows_since (c := ⟨stampMs * nsPerMs, now, 0⟩)]
    exact hstamp stampMs now rfl
  | @slew stampMs now excess recovers best hexcess =>
    unfold Below
    rw [ClockCall.now, Pace.shows_since (c := ⟨c.shows maxSlewPpm million now, now, excess * nsPerMs⟩)]
    exact hnow

/-- Stamps that fit keep a clock below the end of 64-bit time. -/
theorem TimeState.Runs.below {s : TimeState} {c : Pace} {t T : Nat} (h : s.Runs c t)
    {calls : List ClockCall} (ho : Ordered t calls) (hT : lastInstant t calls ≤ T) (hbelow : Below T c t)
    (hstamps : ∀ stampMs now, ClockCall.observe stampMs now ∈ calls →
      stampMs * nsPerMs + (T - now) < UInt64.size * nsPerMs) :
    ∃ c', (s.run calls).Runs c' (lastInstant t calls) ∧ Below T c' (lastInstant t calls) := by
  refine (h.run ho hbelow ?_).1
  intro c t call a c' hmem hs ht hm hbelow
  refine hbelow.move hs ht (Nat.le_trans (ho.now_le_last hmem) hT) hm ?_
  rintro stampMs now rfl
  exact hstamps stampMs now hmem

theorem adopted_below {referenceMs t₀ T : Nat} {calls : List ClockCall} (ho : Ordered t₀ calls)
    (hT : lastInstant t₀ calls ≤ T) (hfits : Fits T referenceMs t₀ calls) :
    ∃ c, ((adopted referenceMs t₀).run calls).Runs c (lastInstant t₀ calls) ∧
      Below T c (lastInstant t₀ calls) := by
  refine (adopted_runs referenceMs t₀).below ho hT ?_ hfits.2
  unfold Below
  rw [Pace.shows_since (c := ⟨referenceMs * nsPerMs, t₀, 0⟩)]
  exact hfits.1

/-- The readings `r₁` at `t₁` and `r₂` at `t₂` are apart by the elapsed time, at most one millisecond
more, and at the slowest shed at most one millisecond less. -/
def KeepsRate (r₁ t₁ r₂ t₂ : Nat) : Prop :=
  nsPerMs * r₂ ≤ nsPerMs * r₁ + (t₂ - t₁) + nsPerMs ∧
    (t₂ - t₁) * (million - maxSlewPpm) ≤ million * nsPerMs * (r₂ - r₁ + 1)

/-- Over a lapse below the end of 64-bit time the readings keep the clock's rate. -/
theorem Lapse.keepsRate {c c' : Pace} {u v excess : Nat} (h : Lapse c u c' v excess) (hs : c.since ≤ u)
    (hs' : c'.since ≤ v) : KeepsRate (c.shows maxSlewPpm million u / nsPerMs) u
      (c'.shows maxSlewPpm million v / nsPerMs) v := by
  have hfast := h.fast
  have hrate := h.rate hs hs'
  unfold KeepsRate
  generalize c.shows maxSlewPpm million u = x at hfast hrate ⊢
  generalize c'.shows maxSlewPpm million v = y at hfast hrate ⊢
  have hx : nsPerMs * (x / nsPerMs) + x % nsPerMs = x := Nat.div_add_mod _ _
  have hy : nsPerMs * (y / nsPerMs) + y % nsPerMs = y := Nat.div_add_mod _ _
  have hxlt : x % nsPerMs < nsPerMs := Nat.mod_lt _ (by decide)
  have hylt : y % nsPerMs < nsPerMs := Nat.mod_lt _ (by decide)
  generalize (v - u) * (million - maxSlewPpm) = slow at hrate ⊢
  simp only [nsPerMs, million] at *
  constructor
  · omega
  · omega

/-- A clock that adopted once, from any instant `u` of its run to any later `v`. Readings never
decrease. Where no observation between them stepped, the clock falls behind by no more than the sheds
started and what was unshed at `u`, and readings at `u` and `v` keep the rate, as long as the
reference and every stamp, with the time that passes to `v`, fit in 64 bits of milliseconds. -/
theorem adopted_keeps_rate (referenceMs t₀ u v : Nat) (before between : List ClockCall)
    (hbefore : Ordered t₀ before) (hu : lastInstant t₀ before ≤ u) (hbetween : Ordered u between)
    (hv : lastInstant u between ≤ v) :
    let s := (adopted referenceMs t₀).run before
    ((∀ a ∈ s.answers between, a.isStep = false) →
      s.clockNs u + (v - u) ≤ (s.run between).clockNs v +
        ((s.answers between).map ClockAnswer.excessMs).sum * nsPerMs + s.unshedNs u) ∧
    ∃ r₁ r₂, (s.readingAt u).2 = some r₁ ∧ (((s.readingAt u).1.run between).readingAt v).2 = some r₂ ∧
      r₁ ≤ r₂ ∧
      ((∀ a ∈ (s.readingAt u).1.answers between, a.isStep = false) →
        Fits v referenceMs t₀ (before ++ between) → KeepsRate r₁ u r₂ v) := by
  intro s
  obtain ⟨⟨c, hruns, -⟩, -⟩ := (adopted_runs referenceMs t₀).run (P := fun _ _ => True) hbefore trivial
    (fun _ _ _ _ _ _ _ _ _ _ => trivial)
  have hat : s.Runs c u := hruns.until hu
  constructor
  · intro hno
    obtain ⟨c', hruns', hlapse⟩ := hat.lapse hbetween hno hat.since (Lapse.refl c u)
    have hbehind := (hlapse.kept hruns'.since hv).behind
    rw [Nat.zero_add] at hbehind
    rw [hat.clockNs (Nat.le_refl u), hruns'.clockNs hv, hat.unshedNs]
    omega
  · obtain ⟨hread, hlast, hr₁⟩ := hat.readingAt (Nat.le_refl u)
    obtain ⟨⟨c', hruns', -⟩, hgrows⟩ := hread.run (P := fun _ _ => True) hbetween trivial
      (fun _ _ _ _ _ _ _ _ _ _ => trivial)
    obtain ⟨-, -, hr₂⟩ := hruns'.readingAt hv
    refine ⟨_, _, hr₁, hr₂, ?_, ?_⟩
    · rw [← hlast]
      exact Nat.le_trans hgrows (TimeState.last_le_read _ v)
    · intro hno hfits
      have hleft : Fits v referenceMs t₀ before :=
        ⟨hfits.1, fun stampMs now hmem => hfits.2 stampMs now (List.mem_append_left _ hmem)⟩
      have huv : u ≤ v := Nat.le_trans hbetween.le_last hv
      obtain ⟨c₁, hruns₁, hbelow₁⟩ := adopted_below hbefore (Nat.le_trans hu huv) hleft
      obtain rfl := hruns.unique hruns₁
      have hbelow := hbelow₁.shows hruns.since hu huv
      obtain ⟨c₂, hruns₂, hbelow₂⟩ := hread.below hbetween hv hbelow
        fun stampMs now hmem => hfits.2 stampMs now (List.mem_append_right _ hmem)
      obtain rfl := hruns'.unique hruns₂
      have hbelow' := hbelow₂.shows hruns'.since hv (Nat.le_refl v)
      obtain ⟨c₃, hruns₃, hlapse⟩ := hread.lapse hbetween hno hread.since (Lapse.refl c u)
      obtain rfl := hruns'.unique hruns₃
      rw [hat.read_eq (Nat.le_refl u) (Nat.lt_of_le_of_lt (Nat.le_add_right _ _) hbelow),
        hruns'.read_eq hv (Nat.lt_of_le_of_lt (Nat.le_add_right _ _) hbelow')]
      exact (hlapse.kept hruns'.since hv).keepsRate hread.since (Nat.le_trans hruns'.since hv)

/-- Eight stamps of an authority almost a second behind. -/
def lagging : List ClockCall := (List.range 8).map fun i => .observe (i + 1) (i * nsPerMs)

/-- The window of eight starts a shed of 499 ms; a second later the clock has shed 0.5 ms of it. -/
theorem adopted_keeps_rate_lagging :
    ((adopted 1000 0).readingAt 0).2 = some 1000 ∧
      ((((adopted 1000 0).readingAt 0).1.run lagging).readingAt (1007 * nsPerMs)).2 = some 2006 ∧
      KeepsRate 1000 0 2006 (1007 * nsPerMs) := by
  have hfirst : ((adopted 1000 0).readingAt 0).2 = some 1000 := by decide
  have hsecond : ((((adopted 1000 0).readingAt 0).1.run lagging).readingAt (1007 * nsPerMs)).2 = some 2006 := by
    decide +kernel
  refine ⟨hfirst, hsecond, ?_⟩
  obtain ⟨-, r₁, r₂, h₁, h₂, -, hrate⟩ := adopted_keeps_rate 1000 0 0 (1007 * nsPerMs) [] lagging trivial
    (Nat.le_refl 0) (by simp [lagging, Ordered, ClockCall.now, List.range_succ, nsPerMs]) (by decide)
  obtain rfl : 1000 = r₁ := Option.some.inj (hfirst.symm.trans h₁)
  obtain rfl : 2006 = r₂ := Option.some.inj (hsecond.symm.trans h₂)
  refine hrate (by decide +kernel) ⟨by decide, fun stampMs now hmem => ?_⟩
  obtain ⟨i, hi, he⟩ := List.mem_map.mp hmem
  have hlt : i < 8 := List.mem_range.mp hi
  injection he with hstamp hnow
  simp only [nsPerMs, UInt64.size] at hnow ⊢
  omega

/-- A clock that adopts the last millisecond of 64-bit time reads the same three milliseconds later. -/
theorem last_millisecond_stalls :
    ((adopted (2 ^ 64 - 1) 0).readingAt 0).2 = some (2 ^ 64 - 1) ∧
      (((adopted (2 ^ 64 - 1) 0).readingAt 0).1.readingAt (3 * nsPerMs)).2 = some (2 ^ 64 - 1) ∧
      ¬ KeepsRate (2 ^ 64 - 1) 0 (2 ^ 64 - 1) (3 * nsPerMs) := by
  refine ⟨by decide, by decide, ?_⟩
  unfold KeepsRate
  decide

end DistributedMesh.RafkaTime
