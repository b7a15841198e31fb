import DistributedMesh.StoreFraming
import DistributedMesh.StoreLog

namespace DistributedMesh

open Interleaving

variable {ι Value : Type}

/-- An object a writer appends, as `encode_object` makes it and as a line read back holds it. -/
abbrev Object := { obj : Bytes // Framed obj }

/-- A call that holds a handle's append lock: the object it appends, none when it only reconciles,
and what is left of it to do. -/
structure Appending (Value : Type) where
  obj : Option Bytes
  prog : Disk Value (Option Pending × Except StorageError Unit)

/-- One open store: what its calls share, the append its append lock guards, the call that holds
that lock, and the reads it has begun. -/
structure Handle (Value : Type) where
  log : StoreLog Value
  inner : Inner Value
  pending : Option Pending
  appending : Option (Appending Value)
  readers : Nat → Option (Disk Value Unit)

/-- Every handle open on one file, the file, and the appends answered so far, latest first. -/
structure Store (ι Value : Type) where
  file : Bytes
  handle : ι → Handle Value
  answers : List (Bytes × Except StorageError Unit)

/-- One step of the store: a handle begins a call, or a call of it does its next operation, the
operation ending as `outcome`. -/
inductive Event (ι : Type) where
  | append (i : ι) (id : String) (obj : Object)
  | reconcile (i : ι)
  | read (i : ι) (k : Nat) (kind : ReadKind)
  | lines (i : ι) (k : Nat)
  | appender (i : ι) (outcome : Outcome)
  | reader (i : ι) (k : Nat) (outcome : Outcome)

def Event.appended : Event ι → List Bytes
  | .append _ _ obj => [obj.1]
  | _ => []

/-- The objects a run of events appends. -/
def appended (events : List (Event ι)) : List Bytes := events.flatMap Event.appended

def Handle.unread (log : StoreLog Value) : Handle Value :=
  ⟨log, Inner.unread, none, none, fun _ => none⟩

def Store.opened (file : Bytes) (logs : ι → StoreLog Value) : Store ι Value :=
  ⟨file, fun i => Handle.unread (logs i), []⟩

def Handle.view (h : Handle Value) (file : Bytes) : View Value := ⟨file, h.inner⟩

/-- A call that waits for the append lock has not begun. -/
def Handle.begin (h : Handle Value) (a : Appending Value) : Option (Handle Value) :=
  match h.appending with
  | some _ => none
  | none => some { h with appending := some a }

def Handle.beginRead (h : Handle Value) (k : Nat) (prog : Disk Value Unit) :
    Option (Handle Value) :=
  match h.readers k with
  | some _ => none
  | none => some { h with readers := Function.update h.readers k (some prog) }

/-- The next operation of the call that holds the append lock, or its answer. -/
def Handle.appender (h : Handle Value) (outcome : Outcome) (file : Bytes) :
    Option (Handle Value × Bytes × List (Bytes × Except StorageError Unit)) :=
  match h.appending with
  | none => none
  | some ⟨obj, .ret (pending, r)⟩ =>
    some ({ h with pending := pending, appending := none }, file, obj.toList.map fun o => (o, r))
  | some ⟨obj, .act op next⟩ =>
    match op.step outcome (h.view file) with
    | none => none
    | some (r, v) => some ({ h with inner := v.inner, appending := some ⟨obj, next r⟩ }, v.file, [])

/-- The next operation of the read `k`, or its end. -/
def Handle.reader (h : Handle Value) (k : Nat) (outcome : Outcome) (file : Bytes) :
    Option (Handle Value × Bytes) :=
  match h.readers k with
  | none => none
  | some (.ret ()) => some ({ h with readers := Function.update h.readers k none }, file)
  | some (.act op next) =>
    match op.step outcome (h.view file) with
    | none => none
    | some (r, v) =>
      some ({ h with inner := v.inner, readers := Function.update h.readers k (some (next r)) }, v.file)

variable [DecidableEq ι]

def Store.put (store : Store ι Value) (i : ι) (h : Handle Value) (file : Bytes)
    (answered : List (Bytes × Except StorageError Unit)) : Store ι Value :=
  ⟨file, Function.update store.handle i h, answered ++ store.answers⟩

@[simp] theorem Store.put_self (store : Store ι Value) (i : ι) (h : Handle Value) (file : Bytes)
    (answered : List (Bytes × Except StorageError Unit)) :
    (store.put i h file answered).handle i = h := by
  simp [Store.put]

theorem Store.put_other (store : Store ι Value) {i j : ι} (hj : j ≠ i) (h : Handle Value)
    (file : Bytes) (answered : List (Bytes × Except StorageError Unit)) :
    (store.put i h file answered).handle j = store.handle j := by
  simp [Store.put, hj]

/-- One event; `none` where it cannot happen: the call waits for a lock, or there is none. -/
def Store.step (store : Store ι Value) (e : Event ι) : Option (Store ι Value) :=
  match e with
  | .append i id obj => do
    let h := store.handle i
    let h ← h.begin ⟨some obj.1, h.log.appendObject h.pending id obj.1⟩
    return store.put i h store.file []
  | .reconcile i => do
    let h := store.handle i
    let h ← h.begin ⟨none, h.log.settle h.pending⟩
    return store.put i h store.file []
  | .read i k kind => do
    let h := store.handle i
    let h ← h.beginRead k (h.log.read kind >>= fun _ => .ret ())
    return store.put i h store.file []
  | .lines i k => do
    let h := store.handle i
    let h ← h.beginRead k (h.log.lines >>= fun _ => .ret ())
    return store.put i h store.file []
  | .appender i outcome => do
    let (h, file, answered) ← (store.handle i).appender outcome store.file
    return store.put i h file answered
  | .reader i k outcome => do
    let (h, file) ← (store.handle i).reader k outcome store.file
    return store.put i h file []

def Store.run (store : Store ι Value) (events : List (Event ι)) : Option (Store ι Value) :=
  events.foldlM Store.step store

end DistributedMesh
