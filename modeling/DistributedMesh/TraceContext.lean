import DistributedMesh.Framing
import DistributedMesh.GossipFrames
import Mathlib.Data.List.Basic

namespace DistributedMesh.Gossip

open Framing (CallContext)

/-- Where the receive path would stop instead of answering. -/
inductive Panic where
  | sanitizedMember
  | unwrapped
  | overflow
  | slice
  | index
  | unreachable
deriving DecidableEq

def split (sep : Char) (s : String) : List String := (s.toList.splitOn sep).map String.ofList

/-- The characters of the property White_Space. -/
def isWhitespace (c : Char) : Bool :=
  let n := c.toNat
  (9 ≤ n && n ≤ 13) || n == 0x20 || n == 0x85 || n == 0xa0 || n == 0x1680 || (0x2000 ≤ n && n ≤ 0x200a) ||
    n == 0x2028 || n == 0x2029 || n == 0x202f || n == 0x205f || n == 0x3000

def trim (s : String) : String :=
  String.ofList ((s.toList.dropWhile isWhitespace).reverse.dropWhile isWhitespace).reverse

def maxCallerSystemBytes : Nat := 32

def maxTracestateBytes : Nat := 512

def maxBaggageBytes : Nat := 8192

/-- Why a part of the context was dropped. -/
inductive Dropped where
  | callerSystem
  | traceparent
  | tracestate
  | baggage
deriving DecidableEq

def Dropped.asStr : Dropped → String
  | .callerSystem => "caller_system"
  | .traceparent => "traceparent"
  | .tracestate => "tracestate"
  | .baggage => "baggage"

def droppedAsStr (d : List Dropped) : String := ",".intercalate (d.map Dropped.asStr)

namespace CallContext

def lowerHex (s : String) (n : Nat) : Bool :=
  s.utf8ByteSize == n && s.toList.all fun c => c.isDigit || ('a' ≤ c && c ≤ 'f')

/-- `00-<32 hex>-<16 hex>-<2 hex>`, neither id all zero. -/
def traceparentIsValid (tp : String) : Bool :=
  match split '-' tp with
  | [version, trace, parent, flags] =>
    lowerHex version 2 && version != "ff" && lowerHex trace 32 && lowerHex parent 16 && lowerHex flags 2 &&
      trace.toList.any (· != '0') && parent.toList.any (· != '0')
  | _ => false

def callerSystemIsValid (s : String) : Bool :=
  s != "" && s.utf8ByteSize ≤ maxCallerSystemBytes && s.toList.all fun c => c.isLower || c.isDigit || c == '-'

def tracestateIsValid (s : String) : Bool :=
  s.utf8ByteSize ≤ maxTracestateBytes && s != "" && (split ',' s).all fun m =>
    match splitOnce '=' (trim m) with
    | some (k, v) => k != "" && v != "" && !k.toList.contains ' '
    | none => false

def baggageIsValid (s : String) : Bool :=
  s.utf8ByteSize ≤ maxBaggageBytes && s != "" && (split ',' s).all fun m =>
    match splitOnce '=' ((split ';' (trim m)).headD "") with
    | some (k, _) => trim k != "" && !k.toList.contains ' '
    | none => false

/-- The context without its malformed parts, and what was dropped. -/
def sanitized (c : CallContext) : CallContext × List Dropped :=
  let (c, dropped) :=
    if c.callerSystem.any fun s => !callerSystemIsValid s then ({ c with callerSystem := none }, [.callerSystem])
    else (c, [])
  let (c, dropped) :=
    if c.traceparent.any fun s => !traceparentIsValid s then
      -- an invalid parent takes the vendors' state with it
      ({ c with traceparent := none, tracestate := none }, dropped ++ [.traceparent])
    else if c.tracestate.any fun s => !tracestateIsValid s then
      ({ c with tracestate := none }, dropped ++ [.tracestate])
    else (c, dropped)
  if c.baggage.any fun s => !baggageIsValid s then ({ c with baggage := none }, dropped ++ [.baggage])
  else (c, dropped)

end CallContext

open CallContext

/-- A member of a vendors' state, in a context that says it is one. -/
def member (site : Panic) (m : String) : Except Panic (String × String) :=
  match splitOnce '=' (trim m) with
  | some kv => .ok kv
  | none => .error site

def printable (s : String) : Bool := s.toList.all fun c => 0x20 ≤ c.toNat && c.toNat ≤ 0x7e

section Sanitizing

-- whether the tracing library takes these members as a state of its own
variable (traceState : List (String × String) → Bool)

def refusesState (parent : Option String) (s : String) : Except Panic Bool :=
  if parent.isNone || !printable s || 32 < (split ',' s).length then .ok true
  else do
    let members ← (split ',' s).mapM (member .sanitizedMember)
    if !traceState members then return true
    let members ← (split ',' s).mapM (member .unwrapped)
    return !decide (members.map Prod.fst).Nodup

def sanitizedTrace (parent state : Option String) : Except Panic (CallContext × List Dropped) :=
  let (trace, dropped) := sanitized { callerSystem := none, traceparent := parent, tracestate := state, baggage := none }
  match trace.tracestate with
  | none => .ok (trace, dropped)
  | some s => do
    if ← refusesState traceState trace.traceparent s then
      return ({ trace with tracestate := none }, dropped ++ [.tracestate])
    return (trace, dropped)

/-- The members of a state that is one. -/
def members (s : String) : List (String × String) := (split ',' s).filterMap fun m => splitOnce '=' (trim m)

def keepsState (s : String) : Bool :=
  printable s && (split ',' s).length ≤ 32 && traceState (members s) && decide ((members s).map Prod.fst).Nodup

/-- The trace of `parent` and `state` that is read on: a state only under a parent. -/
def keptTrace (parent state : Option String) : Trace where
  parent := parent.filter traceparentIsValid
  state := if (parent.filter traceparentIsValid).isSome then
    state.filter fun s => tracestateIsValid s && keepsState traceState s else none

variable {traceState}

/-- A trace as the context of a call that carries nothing else. -/
def Trace.call (t : Trace) : CallContext := ⟨none, t.parent, t.state, none⟩

theorem mapM_member (site : Panic) {l : List String} (h : ∀ m ∈ l, (splitOnce '=' (trim m)).isSome) :
    l.mapM (member site) = .ok (l.filterMap fun m => splitOnce '=' (trim m)) := by
  induction l with
  | nil => rfl
  | cons m l ih =>
    obtain ⟨kv, hkv⟩ := Option.isSome_iff_exists.mp (h m List.mem_cons_self)
    have hm : member site m = .ok kv := by
      unfold member
      rw [hkv]
    rw [List.mapM_cons, hm, ih fun m hm => h m (List.mem_cons_of_mem _ hm), List.filterMap_cons]
    simp only [hkv]
    rfl

/-- Every member of a valid state has its key and its value, so that reading them does not stop. -/
theorem isSome_of_tracestateIsValid {s m : String} (h : tracestateIsValid s = true) (hm : m ∈ split ',' s) :
    (splitOnce '=' (trim m)).isSome := by
  unfold tracestateIsValid at h
  rw [Bool.and_eq_true] at h
  have hmember := List.all_eq_true.mp h.2 m hm
  cases hsplit : splitOnce '=' (trim m) with
  | none => simp [hsplit] at hmember
  | some kv => rfl

theorem refusesState_eq (parent : Option String) {s : String} (h : tracestateIsValid s = true) :
    refusesState traceState parent s = .ok (!(parent.isSome && keepsState traceState s)) := by
  have hmembers := fun site => mapM_member site fun m hm => isSome_of_tracestateIsValid h hm
  unfold refusesState keepsState members
  split
  next hearly =>
    congr 1
    simp only [Bool.or_eq_true, Bool.not_eq_true', decide_eq_true_eq, Option.isNone_iff_eq_none] at hearly
    rcases hearly with (rfl | hprint) | hmany
    · rfl
    · simp [hprint]
    · simp [show ¬ (split ',' s).length ≤ 32 by omega]
  next hlate =>
    simp only [Bool.or_eq_true, Bool.not_eq_true', decide_eq_true_eq, not_or, Bool.not_eq_false,
      Bool.not_eq_true, Option.isNone_eq_false_iff] at hlate
    obtain ⟨⟨hparent, hprint⟩, hmany⟩ := hlate
    rw [hmembers .sanitizedMember, hmembers .unwrapped]
    simp only [hparent, hprint, show (split ',' s).length ≤ 32 by omega, decide_true, Bool.true_and]
    cases hstate : traceState ((split ',' s).filterMap fun m => splitOnce '=' (trim m)) with
    | false => simp [bind, Except.bind, pure, Except.pure, hstate]
    | true => simp [bind, Except.bind, pure, Except.pure, hstate]

theorem sanitizedTrace_eq (parent state : Option String) :
    ∃ dropped, sanitizedTrace traceState parent state = .ok ((keptTrace traceState parent state).call, dropped) := by
  unfold sanitizedTrace Trace.call keptTrace
  by_cases hparent : (parent.any fun s => !traceparentIsValid s) = true
  · have hdropped : parent.filter traceparentIsValid = none := by
      cases parent with
      | none => rfl
      | some tp => simpa using hparent
    exact ⟨[.traceparent], by simp [sanitized, hparent, hdropped]⟩
  · have hkept : parent.filter traceparentIsValid = parent := by
      cases parent with
      | none => rfl
      | some tp => simpa using hparent
    rw [hkept]
    cases state with
    | none => exact ⟨[], by simp [sanitized, hparent]⟩
    | some s =>
      cases hvalid : tracestateIsValid s with
      | false => exact ⟨[.tracestate], by simp [sanitized, hparent, hvalid, Option.filter_some]⟩
      | true =>
        have hsanitized : sanitized ⟨none, parent, some s, none⟩ = (⟨none, parent, some s, none⟩, []) := by
          simp [sanitized, hparent, hvalid]
        simp only [hsanitized, refusesState_eq parent hvalid, Option.filter_some, hvalid, Bool.true_and]
        cases hsome : parent.isSome with
        | false => exact ⟨[.tracestate], rfl⟩
        | true =>
          cases hkeeps : keepsState traceState s with
          | false => exact ⟨[.tracestate], rfl⟩
          | true => exact ⟨[], rfl⟩

theorem keptTrace_keptTrace (parent state : Option String) :
    keptTrace traceState (keptTrace traceState parent state).parent (keptTrace traceState parent state).state =
      keptTrace traceState parent state := by
  unfold keptTrace
  simp only [Option.filter_filter, Bool.and_self]
  split <;> simp [Option.filter_filter]

end Sanitizing

end DistributedMesh.Gossip
