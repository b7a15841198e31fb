import DistributedMesh.BuildLog
import Mathlib.Data.List.Sort

namespace DistributedMesh.Build

variable {T : Type}

/-- One Build record as it is stored: the fact, and its place in the order its writer wrote the records. -/
structure StoredFact (T : Type) where
  seq : Nat
  fact : BuildFact T
deriving DecidableEq

/-- A stored record by its line's id. -/
abbrev Record (T : Type) := String × StoredFact T

/-- The Build journal on a store root: what one process holds of it, and the whole records of the file. -/
structure Journal (T : Type) where
  log : FactLog T
  file : List (Record T)
  /-- How many of the file's records the file's fold has read. -/
  consumed : Nat
  /-- The records the fold has read and no turn has taken yet. -/
  unread : List (Record T)
  /-- Every record this journal took or wrote, by its line's id. -/
  seen : List String
  nextSeq : Nat

/-- What a take has gathered of the records read. -/
structure Taking (T : Type) where
  seen : List String
  nextSeq : Nat
  new : List (BuildFact T)
  stored : List (BuildAccepted T)

/-- The acceptance is held with another record. -/
def heldOtherwise [DecidableEq T] (held : List (BuildFact T)) (a : BuildAccepted T) : Bool :=
  held.any fun f =>
    match f with
    | .accepted h => h.buildId == a.buildId && h != a
    | .forget _ => false

def Taking.record [DecidableEq T] (held : List (BuildFact T)) (t : Taking T) (r : Record T) : Taking T :=
  if t.seen.contains r.1 then t
  else
    let t := { t with seen := r.1 :: t.seen, nextSeq := max t.nextSeq (r.2.seq + 1) }
    match r.2.fact with
    | .accepted a =>
      if heldOtherwise held a then { t with stored := t.stored ++ [a] }
      else if isNew held r.2.fact && isNew t.new r.2.fact then { t with new := t.new ++ [r.2.fact] } else t
    | .forget _ => if isNew held r.2.fact && isNew t.new r.2.fact then { t with new := t.new ++ [r.2.fact] } else t

/-- The records in the order they were written; ones of one place stay as they were read. -/
def inWrittenOrder (read : List (Record T)) : List (Record T) := read.insertionSort fun r s => r.2.seq ≤ s.2.seq

theorem mem_inWrittenOrder {read : List (Record T)} {r : Record T} : r ∈ inWrittenOrder read ↔ r ∈ read :=
  List.mem_insertionSort _

namespace Journal

/-- The journal of a store root whose file holds nothing yet. -/
def opened : Journal T := ⟨.empty, [], 0, [], [], 1⟩

/-- The file's fold reads on to the end, showing every record. -/
def advance (j : Journal T) : Journal T :=
  { j with consumed := j.file.length, unread := j.unread ++ j.file.drop j.consumed }

/-- The records not taken yet are handed to a read. -/
def drain (j : Journal T) : List (Record T) × Journal T := (j.unread, { j with unread := [] })

variable [DecidableEq T]

/-- The records read are taken into the log, in the order they were written. -/
def takeRead (j : Journal T) (read : List (Record T)) : Journal T :=
  if read.isEmpty then j
  else
    let t := (inWrittenOrder read).foldl (Taking.record j.log.facts) ⟨j.seen, j.nextSeq, [], []⟩
    { j with seen := t.seen, nextSeq := t.nextSeq, log := (j.log.takeStoredAcceptances t.stored).publish t.new }

/-- A turn reads the records not taken yet. -/
def sync (j : Journal T) : Journal T :=
  let read := j.advance.drain
  read.2.takeRead read.1

/-- A fact is written at its line's id and published; one the log holds is not written. -/
def append (j : Journal T) (id : String) (fact : BuildFact T) : Journal T :=
  if !isNew j.log.facts fact then j
  else
    { j with
      file := j.file ++ [(id, ⟨j.nextSeq, fact⟩)]
      nextSeq := j.nextSeq + 1
      seen := id :: j.seen
      log := j.log.publish [fact] }

/-- Every record of the file is one the journal took or wrote. -/
def Own (j : Journal T) : Prop :=
  (∀ r ∈ j.file, r.1 ∈ j.seen) ∧ ∀ r ∈ j.unread, r.1 ∈ j.seen

end Journal

section Taking

variable [DecidableEq T] {held : List (BuildFact T)} {t : Taking T} {r : Record T}

theorem Taking.record_seen (h : r.1 ∈ t.seen) : t.record held r = t := by
  unfold Taking.record
  rw [if_pos (by simpa using h)]

theorem Taking.records_seen {read : List (Record T)} (h : ∀ r ∈ read, r.1 ∈ t.seen) :
    read.foldl (Taking.record held) t = t := by
  induction read with
  | nil => rfl
  | cons r read ih =>
    rw [List.foldl_cons, Taking.record_seen (h r List.mem_cons_self)]
    exact ih fun s hs => h s (List.mem_cons_of_mem r hs)

end Taking

namespace Journal

theorem own_opened : (opened : Journal T).Own := ⟨by simp [opened], by simp [opened]⟩

variable [DecidableEq T] {j : Journal T}

/-- A read of records already taken changes nothing the log answers. -/
theorem takeRead_seen {read : List (Record T)} (h : ∀ r ∈ read, r.1 ∈ j.seen) : j.takeRead read = j := by
  unfold takeRead
  split
  next => rfl
  next =>
    have htaken : (inWrittenOrder read).foldl (Taking.record j.log.facts) ⟨j.seen, j.nextSeq, [], []⟩ =
        ⟨j.seen, j.nextSeq, [], []⟩ :=
      Taking.records_seen fun r hr => h r (mem_inWrittenOrder.mp hr)
    rw [htaken]
    rfl

theorem Own.sync_eq (h : j.Own) : j.sync = { j with consumed := j.file.length, unread := [] } := by
  have hread : ∀ r ∈ j.unread ++ j.file.drop j.consumed, r.1 ∈ j.seen := by
    intro r hr
    rcases List.mem_append.mp hr with hr | hr
    · exact h.2 r hr
    · exact h.1 r (List.mem_of_mem_drop hr)
  exact takeRead_seen hread

theorem Own.sync (h : j.Own) : j.sync.Own := by
  rw [h.sync_eq]
  exact ⟨h.1, by simp⟩

theorem Own.append (h : j.Own) (id : String) (fact : BuildFact T) : (j.append id fact).Own := by
  unfold Journal.append
  split
  next => exact h
  next =>
    constructor
    · intro r hr
      rcases List.mem_append.mp hr with hr | hr
      · exact List.mem_cons_of_mem _ (h.1 r hr)
      · rw [List.mem_singleton.mp hr]
        exact List.mem_cons_self
    · intro r hr
      exact List.mem_cons_of_mem _ (h.2 r hr)

end Journal

end DistributedMesh.Build
