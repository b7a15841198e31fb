import DistributedMesh.ClockRate

namespace DistributedMesh.RafkaTime

open Shedding

/-- The time of an authority that was `lagNs` ahead of the reference at its adoption and advances at
the local rate, in nanoseconds. -/
def authorityNs (referenceMs lagNs t₀ t : Nat) : Nat := referenceMs * nsPerMs + lagNs + (t - t₀)

/-- Every stamp is the authority's time in whole milliseconds, at most `delayNs` before its receipt. -/
def StampsOf (authority : Nat → Nat) (delayNs : Nat) (calls : List ClockCall) : Prop :=
  ∀ stampMs now, ClockCall.observe stampMs now ∈ calls →
    ∃ delay ≤ delayNs, stampMs = (authority now - delay) / nsPerMs

/-- How far the discipline lets a clock rest behind, before rounding. -/
def restNs (lagNs delayNs : Nat) : Nat := max lagNs (delayNs - jitterAllowanceMs * nsPerMs)

/-- The clock is not ahead of the authority, and behind it, with what is still to shed, by no more
than the rest point and one rounded millisecond. -/
structure Disciplined (authority rest : Nat) (c : Pace) (t : Nat) : Prop where
  notAhead : c.shows maxSlewPpm million t ≤ authority
  behind : authority + c.unshed maxSlewPpm million t ≤ c.shows maxSlewPpm million t + rest + nsPerMs

namespace Disciplined

variable {authority rest t now : Nat} {c : Pace}

/-- While the pace holds, what the clock falls behind comes out of what it had to shed. -/
theorem later (h : Disciplined authority rest c t) (hs : c.since ≤ t) (ht : t ≤ now) :
    Disciplined (authority + (now - t)) rest c now := by
  have hahead := h.notAhead
  have hbehind := h.behind
  have hle : c.shows maxSlewPpm million now ≤ c.shows maxSlewPpm million t + (now - t) :=
    c.shows_le rate_pos rate_le hs ht
  have hshed : c.shows maxSlewPpm million now + c.unshed maxSlewPpm million t =
      c.shows maxSlewPpm million t + (now - t) + c.unshed maxSlewPpm million now :=
    c.shows_add_unshed rate_pos rate_le hs ht
  exact ⟨by omega, by omega⟩

/-- A step only takes back what the clock was behind. -/
theorem stepped (h : Disciplined authority rest c now) {stampNs : Nat}
    (hahead : c.shows maxSlewPpm million now < stampNs) (hstamp : stampNs ≤ authority) :
    Disciplined authority rest ⟨stampNs, now, 0⟩ now := by
  have hbehind := h.behind
  constructor
  · rw [Pace.shows_since (c := ⟨stampNs, now, 0⟩)]
    exact hstamp
  · rw [Pace.shows_since (c := ⟨stampNs, now, 0⟩), Pace.unshed_since (c := ⟨stampNs, now, 0⟩)]
    dsimp only
    omega

/-- A new shed is measured on a sample of this instant, so it replaces what was unshed without going
past the rest point. -/
theorem shed (h : Disciplined authority rest c now) {excess stampMs delay : Nat}
    (hrest : delay - jitterAllowanceMs * nsPerMs ≤ rest)
    (hstamp : authority < delay + stampMs * nsPerMs + nsPerMs)
    (hexcess : (excess + jitterAllowanceMs) * nsPerMs + stampMs * nsPerMs ≤ c.shows maxSlewPpm million now) :
    Disciplined authority rest ⟨c.shows maxSlewPpm million now, now, excess * nsPerMs⟩ now := by
  constructor
  · rw [Pace.shows_since (c := ⟨c.shows maxSlewPpm million now, now, excess * nsPerMs⟩)]
    exact h.notAhead
  · rw [Pace.shows_since (c := ⟨c.shows maxSlewPpm million now, now, excess * nsPerMs⟩),
      Pace.unshed_since (c := ⟨c.shows maxSlewPpm million now, now, excess * nsPerMs⟩)]
    rw [Nat.add_mul] at hexcess
    dsimp only
    omega

end Disciplined

section Authority

variable {referenceMs lagNs t₀ delayNs : Nat}

theorem stamp_le (authority delay : Nat) : (authority - delay) / nsPerMs * nsPerMs ≤ authority :=
  Nat.le_trans (Nat.div_mul_le_self _ _) (Nat.sub_le _ _)

theorem authority_lt_stamp (authority delay : Nat) :
    authority < delay + (authority - delay) / nsPerMs * nsPerMs + nsPerMs := by
  have hsplit : nsPerMs * ((authority - delay) / nsPerMs) + (authority - delay) % nsPerMs =
      authority - delay := Nat.div_add_mod _ _
  have hlt : (authority - delay) % nsPerMs < nsPerMs := Nat.mod_lt _ (by decide)
  rw [Nat.mul_comm] at hsplit
  omega

/-- A move on a stamp of the authority keeps the clock disciplined. -/
theorem Disciplined.move {c c' : Pace} {t : Nat} {call : ClockCall} {a : ClockAnswer}
    (h : Disciplined (authorityNs referenceMs lagNs t₀ t) (restNs lagNs delayNs) c t) (h₀ : t₀ ≤ t)
    (hs : c.since ≤ t) (ht : t ≤ call.now) (hm : Moves c call a c')
    (hstamps : StampsOf (authorityNs referenceMs lagNs t₀) delayNs [call]) :
    Disciplined (authorityNs referenceMs lagNs t₀ call.now) (restNs lagNs delayNs) c' call.now := by
  have hnow : Disciplined (authorityNs referenceMs lagNs t₀ call.now) (restNs lagNs delayNs) c call.now := by
    have hlater := h.later hs ht
    have htime : authorityNs referenceMs lagNs t₀ t + (call.now - t) =
        authorityNs referenceMs lagNs t₀ call.now := by
      unfold authorityNs
      omega
    rw [htime] at hlater
    exact hlater
  cases hm with
  | kept => exact hnow
  | @stepped stampMs now byMs hahead =>
    obtain ⟨delay, -, rfl⟩ := hstamps stampMs now List.mem_cons_self
    exact hnow.stepped hahead (stamp_le _ delay)
  | @slew stampMs now excess recovers best hexcess =>
    obtain ⟨delay, hdelay, rfl⟩ := hstamps stampMs now List.mem_cons_self
    refine hnow.shed ?_ (authority_lt_stamp _ delay) hexcess
    unfold restNs
    omega

/-- A run of any calls on the authority's stamps is disciplined. -/
theorem adopted_disciplined {calls : List ClockCall} (ho : Ordered t₀ calls)
    (hstamps : StampsOf (authorityNs referenceMs lagNs t₀) delayNs calls) :
    ∃ c, ((adopted referenceMs t₀).run calls).Runs c (lastInstant t₀ calls) ∧
      Disciplined (authorityNs referenceMs lagNs t₀ (lastInstant t₀ calls)) (restNs lagNs delayNs) c
        (lastInstant t₀ calls) := by
  have hstart : Disciplined (authorityNs referenceMs lagNs t₀ t₀) (restNs lagNs delayNs)
      ⟨referenceMs * nsPerMs, t₀, 0⟩ t₀ := by
    constructor
    · rw [Pace.shows_since (c := ⟨referenceMs * nsPerMs, t₀, 0⟩)]
      unfold authorityNs
      dsimp only
      omega
    · rw [Pace.shows_since (c := ⟨referenceMs * nsPerMs, t₀, 0⟩),
        Pace.unshed_since (c := ⟨referenceMs * nsPerMs, t₀, 0⟩)]
      unfold authorityNs restNs
      dsimp only
      omega
  obtain ⟨⟨c, hruns, -, hdisciplined⟩, -⟩ := (adopted_runs referenceMs t₀).run
    (P := fun c t => t₀ ≤ t ∧ Disciplined (authorityNs referenceMs lagNs t₀ t) (restNs lagNs delayNs) c t)
    ho ⟨Nat.le_refl t₀, hstart⟩ (by
      rintro c t call a c' hmem hs ht hm ⟨h₀, h⟩
      refine ⟨Nat.le_trans h₀ ht, h.move h₀ hs ht hm ?_⟩
      intro stampMs now hcall
      exact hstamps stampMs now (List.mem_singleton.mp hcall ▸ hmem))
  exact ⟨c, hruns, hdisciplined⟩

end Authority

/-- Whatever the delays, repeats and order of its stamps, a clock that follows an authority never
reads ahead of it, and never further behind than the lag it adopted with or the delays past the
allowance, and two milliseconds of rounding, while the authority's time fits in 64 bits of
milliseconds. -/
theorem reading_near_authority (referenceMs lagNs delayNs t₀ t : Nat) (calls : List ClockCall)
    (ho : Ordered t₀ calls) (ht : lastInstant t₀ calls ≤ t)
    (hstamps : StampsOf (authorityNs referenceMs lagNs t₀) delayNs calls)
    (hfits : authorityNs referenceMs lagNs t₀ t < UInt64.size * nsPerMs) :
    ∃ r, (((adopted referenceMs t₀).run calls).readingAt t).2 = some r ∧
      r * nsPerMs ≤ authorityNs referenceMs lagNs t₀ t ∧
      authorityNs referenceMs lagNs t₀ t ≤ r * nsPerMs + restNs lagNs delayNs + 2 * nsPerMs := by
  obtain ⟨c, hruns, hdisciplined⟩ := adopted_disciplined ho hstamps
  have htime : authorityNs referenceMs lagNs t₀ (lastInstant t₀ calls) + (t - lastInstant t₀ calls) =
      authorityNs referenceMs lagNs t₀ t := by
    have h₀ := ho.le_last
    unfold authorityNs
    omega
  have hat := hdisciplined.later hruns.since ht
  rw [htime] at hat
  obtain ⟨hahead, hbehind⟩ := hat
  obtain ⟨-, -, hread⟩ := hruns.readingAt ht
  refine ⟨_, hread, ?_⟩
  rw [hruns.read_eq ht (Nat.lt_of_le_of_lt hahead hfits)]
  generalize c.shows maxSlewPpm million t = x at hahead hbehind ⊢
  have hsplit : nsPerMs * (x / nsPerMs) + x % nsPerMs = x := Nat.div_add_mod _ _
  have hlt : x % nsPerMs < nsPerMs := Nat.mod_lt _ (by decide)
  rw [Nat.mul_comm] at hsplit
  constructor
  · omega
  · omega

/-- Eight stamps of an authority a second away, each received a second late. -/
def delayed : List ClockCall := (List.range 8).map fun i => .observe (9000 + i) (i * nsPerMs)

theorem reading_near_authority_delayed :
    (((adopted 10000 0).run delayed).readingAt (1007 * nsPerMs)).2 = some 11006 ∧
      11006 * nsPerMs ≤ authorityNs 10000 0 0 (1007 * nsPerMs) ∧
      authorityNs 10000 0 0 (1007 * nsPerMs) ≤
        11006 * nsPerMs + restNs 0 (1000 * nsPerMs) + 2 * nsPerMs := by
  have hreading : (((adopted 10000 0).run delayed).readingAt (1007 * nsPerMs)).2 = some 11006 := by
    decide +kernel
  obtain ⟨r, hr, hbounds⟩ := reading_near_authority 10000 0 (1000 * nsPerMs) 0 (1007 * nsPerMs) delayed
    (by simp [delayed, Ordered, ClockCall.now, List.range_succ, nsPerMs]) (by decide)
    (by
      intro stampMs now hmem
      obtain ⟨i, hi, he⟩ := List.mem_map.mp hmem
      injection he with hstamp hnow
      refine ⟨1000 * nsPerMs, Nat.le_refl _, ?_⟩
      simp only [authorityNs, nsPerMs] at hnow ⊢
      omega)
    (by decide)
  obtain rfl : 11006 = r := Option.some.inj (hreading.symm.trans hr)
  exact ⟨hreading, hbounds⟩

/-- Past the end of 64-bit time the first reading starts again near zero. -/
theorem reading_wraps :
    (((adopted (2 ^ 64 - 1) 0).run []).readingAt (3 * nsPerMs)).2 = some 2 ∧
      ¬ authorityNs (2 ^ 64 - 1) 0 0 (3 * nsPerMs) ≤ 2 * nsPerMs + restNs 0 0 + 2 * nsPerMs :=
  ⟨by decide, by decide⟩

end DistributedMesh.RafkaTime
