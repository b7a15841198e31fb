import DistributedMesh.Shedding

namespace DistributedMesh.RafkaTime

open Shedding

def jitterAllowanceMs : Nat := 500
def windowSamples : Nat := 8
/-- `WINDOW_SPAN` in nanoseconds: 120 s. -/
def windowSpan : Nat := 120000000000
def maxSlewPpm : Nat := 500
def nsPerMs : Nat := 1000000
def million : Nat := 1000000

/-- `x as u64`. -/
def asU64 (x : Int) : Nat := (x % UInt64.size).toNat

/-- `x as i64`, also of an `i64` result that wraps. -/
def asI64 (x : Int) : Int := x.bmod UInt64.size

/-- Why a sample moved nothing. -/
inductive Ignored where
  | notDisciplined
  | notAdopted
  | noStamp
  | notNewer
deriving DecidableEq

/-- What one observation did. -/
inductive Observed where
  | stepped (byMs : Nat)
  | slewStarted (bestOffsetMs : Int) (excessMs ppm recoversInMs : Nat)
  | within (bestOffsetMs : Int) (jitterMs : Nat)
  | collecting
  | ignored (why : Ignored)
deriving DecidableEq

/-- The reference in nanoseconds of rafka-time, and the local instant it was adopted at. -/
structure Anchor where
  referenceNs : Nat
  since : Nat

/-- A shed in progress; what is left of it is counted from the anchor. -/
structure Slew where
  ppm : Nat
  remainingNs : Nat

/-- A clock's state. Instants are nanoseconds of the local monotonic clock, and `driftPpm` is the
rate error a testkit injects. -/
structure TimeState where
  anchor : Option Anchor
  last : Nat
  slew : Option Slew
  window : List (Nat × Int)
  newestStamp : Nat
  driftPpm : Int

/-- What one adoption changed. -/
structure Adopted where
  referenceMs : Nat
  previousMs : Option Nat
  stallsMs : Nat

namespace TimeState

def unadopted : TimeState := ⟨none, 0, none, [], 0, 0⟩

/-- Elapsed time at the injected rate error; the division rounds toward zero. -/
def driven (s : TimeState) (elapsed : Nat) : Nat :=
  if s.driftPpm = 0 then elapsed
  else ((elapsed * (1000000 + s.driftPpm)).tdiv 1000000).toNat

def shedNs (s : TimeState) (driven : Nat) : Nat :=
  match s.slew with
  | none => 0
  | some w => shed w.ppm million w.remainingNs driven

/-- The anchor's reference advanced to `now`, before the floor of the last value returned. -/
def advancedNs (s : TimeState) (a : Anchor) (now : Nat) : Nat :=
  let driven := s.driven (now - a.since)
  a.referenceNs + driven - s.shedNs driven

def read (s : TimeState) (now : Nat) : Nat :=
  match s.anchor with
  | some a => max (asU64 (s.advancedNs a now / nsPerMs : Nat)) s.last
  | none => s.last

def adoptAt (s : TimeState) (referenceMs now : Nat) : TimeState × Adopted :=
  let previousMs := s.anchor.map fun _ => s.read now
  ({ s with
     last := previousMs.getD s.last
     anchor := some ⟨referenceMs * nsPerMs, now⟩
     slew := none
     window := [] },
    ⟨referenceMs, previousMs, (previousMs.map fun p => p - referenceMs).getD 0⟩)

/-- Fold the clock as it stands at `now` into the anchor, so that the rate can change from here
without a jump. -/
def rebase (s : TimeState) (now : Nat) : TimeState :=
  match s.anchor with
  | none => s
  | some a =>
    { s with
      anchor := some ⟨s.advancedNs a now, now⟩
      slew := s.slew.map fun w =>
        { w with remainingNs := w.remainingNs - s.shedNs (s.driven (now - a.since)) } }

/-- The samples that still count at `now`, and the new one. -/
def sample (s : TimeState) (now : Nat) (offsetMs : Int) : List (Nat × Int) :=
  s.window.dropWhile (fun old => decide (windowSpan < now - old.1)) ++ [(now, offsetMs)]

/-- The decision a full window takes. -/
def decideWindow (s : TimeState) (now : Nat) (offsets : List Int) : TimeState × Observed :=
  let best := offsets.max?.getD 0
  let worst := offsets.min?.getD 0
  let s := { s with window := [] }
  if best ≥ -(jitterAllowanceMs : Int) then (s, .within best (asU64 (best - worst)))
  else
    let excessMs := asU64 (-best) - jitterAllowanceMs
    let s := { s with last := s.read now }.rebase now
    ({ s with slew := some ⟨maxSlewPpm, excessMs * nsPerMs⟩ },
      .slewStarted best excessMs maxSlewPpm (asU64 (excessMs * million : Nat) / maxSlewPpm))

/-- A stamp the process's authority published, at `now`. -/
def observeAt (s : TimeState) (stampMs now : Nat) : TimeState × Observed :=
  match s.anchor with
  | none => (s, .ignored .notAdopted)
  | some a =>
    if stampMs = 0 then (s, .ignored .noStamp)
    else if stampMs ≤ s.newestStamp then (s, .ignored .notNewer)
    else
      let s := { s with newestStamp := stampMs }
      let nowNs := max (s.advancedNs a now) (s.last * nsPerMs)
      let stampNs := stampMs * nsPerMs
      if stampNs > nowNs then
        ({ s with last := s.read now, anchor := some ⟨stampNs, now⟩, slew := none, window := [] },
          .stepped (asU64 ((stampNs - nowNs) / nsPerMs : Nat)))
      else
        let offsetMs := asI64 (-asI64 ((nowNs - stampNs) / nsPerMs : Nat))
        let window := s.sample now offsetMs
        if window.length < windowSamples then ({ s with window }, .collecting)
        else s.decideWindow now (window.map Prod.snd)

def readingAt (s : TimeState) (now : Nat) : TimeState × Option Nat :=
  match s.anchor with
  | none => (s, none)
  | some _ => ({ s with last := s.read now }, some (s.read now))

end TimeState

/-- A call on the clock, at a local instant. -/
inductive ClockCall where
  | observe (stampMs now : Nat)
  | reading (now : Nat)
deriving DecidableEq

def ClockCall.now : ClockCall → Nat
  | observe _ now => now
  | reading now => now

inductive ClockAnswer where
  | observed (what : Observed)
  | reading (ms : Option Nat)
deriving DecidableEq

namespace TimeState

def step (s : TimeState) : ClockCall → TimeState × ClockAnswer
  | .observe stampMs now => ((s.observeAt stampMs now).1, .observed (s.observeAt stampMs now).2)
  | .reading now => ((s.readingAt now).1, .reading (s.readingAt now).2)

def run (s : TimeState) (calls : List ClockCall) : TimeState := calls.foldl (fun s call => (s.step call).1) s

def answers : TimeState → List ClockCall → List ClockAnswer
  | _, [] => []
  | s, call :: calls => (s.step call).2 :: answers (s.step call).1 calls

end TimeState

/-- The calls' instants do not decrease, from `t` on. -/
def Ordered : Nat → List ClockCall → Prop
  | _, [] => True
  | t, call :: calls => t ≤ call.now ∧ Ordered call.now calls

/-- The instant of the last call. -/
def lastInstant (t : Nat) (calls : List ClockCall) : Nat := calls.foldl (fun _ call => call.now) t

def ClockAnswer.isStep : ClockAnswer → Bool
  | observed (.stepped _) => true
  | _ => false

/-- What the answer starts to shed. -/
def ClockAnswer.excessMs : ClockAnswer → Nat
  | observed (.slewStarted _ excessMs _ _) => excessMs
  | _ => 0

end DistributedMesh.RafkaTime
