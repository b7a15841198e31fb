import DistributedMesh.Interleaving
import DistributedMesh.StoreCodec

namespace DistributedMesh

open Std (ExtTreeMap)
open Interleaving

variable {Value : Type}

inductive StorageError where
  | io (file reason : String)
  | unrecognised (file reason : String)
  | refused (file reason : String)
deriving DecidableEq

/-- What the fold holds of one file: how far it read it, the latest line per (type, subject), and
how many lines each `source` wrote. -/
structure Fold (Value : Type) where
  consumed : Nat
  latest : ExtTreeMap (String × String) (Line Value) (compareLex (compareOn (·.1)) (compareOn (·.2)))
  lines : Nat
  sources : ExtTreeMap String Nat

def Fold.empty : Fold Value := ⟨0, ∅, 0, ∅⟩

def Fold.takeLine (fold : Fold Value) (l : Line Value) : Fold Value :=
  { fold with
    sources := fold.sources.insert l.attributes.source (fold.sources[l.attributes.source]?.getD 0 + 1)
    lines := fold.lines + 1
    latest := if l.attributes.subject.isSome then fold.latest.insert (l.kind, l.subject) l
      else fold.latest }

def Fold.take (fold : Fold Value) (lines : List (Line Value)) : Fold Value :=
  lines.foldl Fold.takeLine fold

/-- The append a writer has not proven: its bytes, where its fold stood before it, and the bytes
its write reported. -/
structure Pending where
  id : String
  obj : Bytes
  start : Nat
  reported : Nat
deriving DecidableEq

inductive Reconciled where
  | done
  | absent
deriving DecidableEq

inductive ReadKind where
  | open
  | tail
deriving DecidableEq

/-- One store file as a handle opened it. -/
structure StoreLog (Value : Type) where
  path : String
  formats : Formats Value
  serde : Serde Value
  /-- It shows an observer every line its fold reads. -/
  observes : Bool
  /-- Opened to append: a reconciliation reads from the file's end before the append. -/
  appends : Bool

/-- What the calls on one handle share: its fold, the lines its observer was shown, whether it
folded the file once, and whether the read lock is held. -/
structure Inner (Value : Type) where
  fold : Fold Value
  observed : List (Line Value)
  folded : Bool
  reading : Bool

def Inner.unread : Inner Value := ⟨Fold.empty, [], false, false⟩

/-- The file and one handle's shared state: what the operations of a call on it see. -/
structure View (Value : Type) where
  file : Bytes
  inner : Inner Value

/-- The atomic operations of a call: the disk calls, and the handle's locks and fold. -/
inductive DiskOp (Value : Type) where
  | readFrom (start : Nat)
  | len
  | write (bytes : Bytes)
  | sync
  | consumed
  | isFolded
  | setFolded
  | lockReading
  | unlockReading
  | observe (lines : List (Line Value))
  | take (lines : List (Line Value)) (upTo : Nat)

@[reducible] def DiskOp.Res : DiskOp Value → Type
  | .readFrom _ => Except String Bytes
  | .len => Except String Nat
  | .write _ => Except String Nat
  | .sync => Except String Unit
  | .consumed => Nat
  | .isFolded => Bool
  | _ => Unit

/-- How a disk call ends: whole, short by a write's count, or failed after a write put some bytes. -/
inductive Outcome where
  | whole
  | short (n : Nat)
  | failed (put : Nat) (why : String)
deriving DecidableEq

/-- The bytes of one write that reach the file. -/
def Outcome.put (outcome : Outcome) (bytes : Bytes) : Bytes :=
  match outcome with
  | .whole => bytes
  | .short n => bytes.take n
  | .failed n _ => bytes.take n

/-- What a disk call that would answer `a` answers. -/
def Outcome.answer {α : Type} (outcome : Outcome) (a : α) : Except String α :=
  match outcome with
  | .failed _ why => .error why
  | _ => .ok a

/-- One operation: a write puts a prefix of its bytes at the file's end and reports that prefix's
length or an error; taking the read lock waits while another call holds it. -/
def DiskOp.step (op : DiskOp Value) (outcome : Outcome) (v : View Value) :
    Option (op.Res × View Value) :=
  match op with
  | .readFrom start => some (outcome.answer (v.file.drop start), v)
  | .len => some (outcome.answer v.file.length, v)
  | .write bytes =>
    some (outcome.answer (outcome.put bytes).length, { v with file := v.file ++ outcome.put bytes })
  | .sync => some (outcome.answer (), v)
  | .consumed => some (v.inner.fold.consumed, v)
  | .isFolded => some (v.inner.folded, v)
  | .setFolded => some ((), { v with inner.folded := true })
  | .lockReading => if v.inner.reading then none else some ((), { v with inner.reading := true })
  | .unlockReading => some ((), { v with inner.reading := false })
  | .observe lines => some ((), { v with inner.observed := v.inner.observed ++ lines })
  | .take lines upTo =>
    some ((), { v with inner.fold := { v.inner.fold.take lines with consumed := upTo } })

abbrev Disk (Value α : Type) := Program (DiskOp Value) DiskOp.Res α

def disk (op : DiskOp Value) : Disk Value op.Res := Program.perform op

namespace StoreLog

variable (log : StoreLog Value)

def named (offset : Nat) (why : String) : StorageError :=
  .unrecognised log.path s!"the line at byte offset {offset} is malformed: {why}; nothing older is answered as current and the file is left as it is"

def io (e : String) : StorageError := .io log.path e

/-- Read the lines from `start` to the end whole; `ended` once this read has appended the newline
that ends a complete object. -/
def readWhole (start : Nat) (kind : ReadKind) (ended : Bool) :
    Disk Value (Except StorageError (List (Line Value) × Nat × Option (Nat × Nat))) := do
  match ← disk (.readFrom start) with
  | .error e => return .error (log.io e)
  | .ok bytes =>
    match scan log.serde log.formats bytes start with
    | .error (at_, why) => return .error (log.named at_ why)
    | .ok s =>
      match s.tail with
      | none => return .ok (s.lines, s.consumed, none)
      | some (at_, tail) =>
        match verify log.serde log.formats tail at_ with
        | .ok _ =>
          if ended then
            return .error (log.named at_ "the object stays unended after a newline was appended to end it")
          else
            match ← disk (.write [newline]) with
            | .error e => return .error (log.io e)
            | .ok n =>
              if n ≠ 1 then
                return .error (.io log.path s!"the newline ending the object at byte offset {at_} was not written ({n} bytes)")
              else
                match ← disk .sync with
                | .error e => return .error (log.io e)
                | .ok () => readWhole start kind true
        | .error why =>
          match kind with
          | .tail => return .ok (s.lines, s.consumed, some (at_, tail.length))
          | .open => return .error (log.named at_ s!"an unended object: {why}")
termination_by if ended then 0 else 1
decreasing_by simp_all

/-- One read, holding the read lock: the lines from the fold's offset to the end, shown to the
observer in file order and folded, the offset moved past them. -/
def readTail (kind : ReadKind) : Disk Value (Except StorageError (Option (Nat × Nat))) := do
  let start ← disk .consumed
  match ← log.readWhole start kind false with
  | .error e => return .error e
  | .ok (lines, consumed, unended) =>
    if log.observes then disk (.observe lines)
    disk (.take lines consumed)
    return .ok unended

/-- A read holding the read lock; the first that answers is the store's fold of the file. -/
def readHeld (kind : ReadKind) : Disk Value (Except StorageError (Option (Nat × Nat))) := do
  if ← disk .isFolded then log.readTail kind
  else
    match ← log.readTail kind with
    | .error e => return .error e
    | .ok unended =>
      disk .setFolded
      return .ok unended

/-- One read of `kind` from the fold's consumed offset, under the store's one-read-at-a-time lock. -/
def read (kind : ReadKind) : Disk Value (Except StorageError (Option (Nat × Nat))) := do
  disk .lockReading
  let r ← log.readHeld kind
  disk .unlockReading
  return r

/-- Every line of the file, read whole from byte 0 beside the fold. -/
def lines : Disk Value (Except StorageError (List (Line Value))) := do
  match ← log.readWhole 0 .tail false with
  | .error e => return .error e
  | .ok (lines, _, _) => return .ok lines

/-- Before the first append to a store whose fold has read nothing, fold the file as a tail read;
a store opened to append reads nothing. -/
def foldBeforeAppend : Disk Value (Except StorageError Unit) := do
  if log.appends then return .ok ()
  else if ← disk .isFolded then return .ok ()
  else
    match ← log.read .tail with
    | .error e => return .error e
    | .ok _ => return .ok ()

def refusedAt (p : Pending) (at_ : Nat) (why : String) : StorageError :=
  let id := p.id
  .io log.path s!"indeterminate: the write of id {id} cannot be reconciled: {why} at byte offset {at_}; nothing is appended in its place and no byte is discarded"

/-- The line of `p` stands whole and ended: fsync it. -/
def syncWhole (p : Pending) : Disk Value (Except StorageError Reconciled) := do
  let id := p.id
  match ← disk .sync with
  | .error e => return .error (.io log.path s!"indeterminate: the line of id {id} stands whole and its fsync failed ({e})")
  | .ok () => return .ok .done

/-- The object of `p` stands whole: finish it with one newline alone where it is unended, and fsync. -/
def finish (p : Pending) (at_ : Nat) (ended : Bool) :
    Disk Value (Except StorageError Reconciled) := do
  if ended then log.syncWhole p
  else
    match ← disk (.write [newline]) with
    | .error e => return .error (log.io e)
    | .ok n =>
      if n ≠ 1 then return .error (log.refusedAt p at_ s!"its ending newline wrote {n} bytes")
      else log.syncWhole p

/-- Why a nonblank segment is no line of the store. -/
def malformed (seg : Bytes) (at_ : Nat) : Option String :=
  if seg = [] then none
  else
    match verify log.serde log.formats seg at_ with
    | .ok _ => none
    | .error why => some why

/-- Find the pending append by its object in `bytes`, standing at byte `at_` of the file, every
other line between validated. -/
def reconcileLoop (p : Pending) (bytes : Bytes) (at_ : Nat) :
    Disk Value (Except StorageError Reconciled) :=
  let seg := bytes.takeWhile (· ≠ newline)
  if seg = p.obj then log.finish p at_ (newline ∈ bytes)
  else if seg ≠ [] ∧ seg <+: p.obj then
    return .error (log.refusedAt p at_ "a partial object of it stands")
  else
    match log.malformed seg at_ with
    | some why => return .error (log.refusedAt p at_ s!"the line there is malformed: {why}")
    | none =>
      if newline ∈ bytes then
        reconcileLoop p (bytes.drop (seg.length + 1)) (at_ + (seg.length + 1))
      else return .ok .absent
termination_by bytes.length
decreasing_by
  have := List.length_pos_of_mem ‹newline ∈ bytes›
  simp only [List.length_drop]
  omega

/-- Find the pending append from the offset its fold stood at before its write. -/
def reconcile (p : Pending) : Disk Value (Except StorageError Reconciled) := do
  match ← disk (.readFrom p.start) with
  | .error e => return .error (log.io e)
  | .ok bytes => log.reconcileLoop p bytes p.start

mutual

/-- Write the pending append's line in one write, then fsync; `zeros` counts the writes of it that
put nothing. A write that reported zero bytes or failed is retried once nothing of it stands; a
short write is settled at once; a failed fsync stays pending. -/
def writePending (p : Pending) (zeros : Nat) :
    Disk Value (Option Pending × Except StorageError Unit) := do
  let id := p.id
  let wrote ← disk (.write (lineOf p.obj))
  let reported := wrote.toOption.getD 0
  let p := { p with reported := reported }
  if reported = (lineOf p.obj).length then
    match ← disk .sync with
    | .ok () => return (none, .ok ())
    | .error e => return (some p, .error (.io log.path s!"indeterminate: the line of id {id} was written and its fsync failed ({e}); it is reconciled by its object before this store's next write"))
  else if 0 < reported then settle (some p)
  else
    match ← log.reconcile p with
    | .error e => return (some p, .error e)
    | .ok .done => return (none, .ok ())
    | .ok .absent =>
      if 3 ≤ zeros + 1 then
        let why := match wrote with
          | .error e => e
          | .ok _ => "it reported zero bytes"
        let times := zeros + 1
        return (none, .error (.io log.path s!"the line of id {id} was not written: {why}, {times} times; no byte of it is in the file"))
      else writePending p (zeros + 1)
termination_by 1 + (3 - zeros)
decreasing_by
  · have hr : (Except.toOption wrote).getD 0 ≠ 0 := Nat.ne_of_gt ‹0 < reported›
    simp only [Option.map_some, Option.getD_some, if_neg hr]
    omega
  · omega

/-- Settle the pending append, if any, before another write: done, written again, or refused by
name with the append still pending. -/
def settle (pending : Option Pending) : Disk Value (Option Pending × Except StorageError Unit) := do
  match pending with
  | none => return (none, .ok ())
  | some p =>
    match ← log.reconcile p with
    | .error e => return (some p, .error e)
    | .ok .done => return (none, .ok ())
    | .ok .absent =>
      if p.reported = 0 then writePending p 0
      else
        let id := p.id
        let reported := p.reported
        let start := p.start
        return (some p, .error (.io log.path s!"indeterminate: the write of id {id} reported {reported} bytes and no byte of its object is in the file after byte offset {start}; nothing is written in its place"))
termination_by (pending.map fun p => if p.reported = 0 then 5 else 0).getD 0
decreasing_by simp_all

end

/-- Append the object of the write `id`, this store's pending append settled first. -/
def appendNew (pending : Option Pending) (id : String) (obj : Bytes) :
    Disk Value (Option Pending × Except StorageError Unit) := do
  match ← log.settle pending with
  | (pending, .error e) => return (pending, .error e)
  | (pending, .ok ()) =>
    if log.appends then
      match ← disk .len with
      | .error e => return (pending, .error (log.io e))
      | .ok start => log.writePending ⟨id, obj, start, 0⟩ 0
    else
      let start ← disk .consumed
      log.writePending ⟨id, obj, start, 0⟩ 0

/-- Append the object `obj` of the write `id` under the store's one-append-at-a-time lock, which
guards `pending`. -/
def appendObject (pending : Option Pending) (id : String) (obj : Bytes) :
    Disk Value (Option Pending × Except StorageError Unit) := do
  match ← log.foldBeforeAppend with
  | .error e => return (pending, .error e)
  | .ok () => log.appendNew pending id obj

end StoreLog

end DistributedMesh
