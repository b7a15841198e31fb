import DistributedMesh.StorageMoves

namespace DistributedMesh.Storage

/-- The birth at a location: which one it is, its storage moves, and the commands and rows it holds blocked as a mesh-primary. -/
structure Birth where
  generation : Nat
  moves : StorageMoves
  blocked : Bool
  rowsHeld : Bool
deriving DecidableEq

/-- A birth of a mesh as a command names it. -/
abbrev Subject := Nat × Nat

/-- Where a mesh-primary's `serve_block` is. -/
inductive BlockServe where
  | arrived
  /-- The births of its view that it has not frozen yet. -/
  | freezing (subjects : List Subject)
  /-- Its commands are held; its rows follow. -/
  | marked
  /-- It waits for its commands in flight and for a row writer. -/
  | waiting
  | blocked
  | refused
deriving DecidableEq

/-- Where a mesh-primary's `serve_unblock` is. -/
inductive UnblockServe where
  | arrived
  | read (provider : String)
  /-- It moved itself. -/
  | ownMoved (provider : String)
  /-- It writes rows again; the locations of its view whose birth has not moved yet. -/
  | moving (provider : String) (left : List Nat)
  /-- `unblock` released its rows, its commands follow. -/
  | rowsReleased (provider : String)
  | unblocked (provider : String)
  | refused
deriving DecidableEq

/-- A mesh in a change: the birth at each of its locations, the mesh-primary's location, what its mesh-primaries serve, each with
the birth that serves it, and the freezes whose call ended and that may yet land. -/
structure MeshRun where
  births : List Birth
  lead : Nat
  blocks : List (Subject × BlockServe)
  unblocks : List (Subject × UnblockServe)
  late : List Subject
deriving DecidableEq

/-- What happens next to the mesh's `serve_block`s. -/
inductive BlockMove where
  /-- `mesh.block` reaches a birth, sent the first time or again. -/
  | sends (location : Nat)
  /-- It takes the births its view holds, in the view's order. -/
  | begins (k : Nat) (view : List Subject)
  /-- Its next freeze is served and answered. -/
  | freezes (k : Nat)
  /-- The call of its next freeze ends without an answer: the freeze may land later. -/
  | unanswered (k : Nat)
  | lateFreeze (j : Nat)
  | lateLost (j : Nat)
  | marks (k : Nat)
  | answers (k : Nat)
  | dropped (k : Nat)

/-- What happens next to the mesh's `serve_unblock`s. -/
inductive UnblockMove where
  | sends (location : Nat)
  | reads (k : Nat) (decided : Option String)
  | movesOwn (k : Nat) (mover : Except String Unit)
  /-- It writes rows again, and takes the locations of the births its view holds. -/
  | releasesRows (k : Nat) (view : List Nat)
  /-- The birth at a location serves its move. -/
  | moves (k location : Nat) (mover : Except String Unit)
  | releases (k : Nat)
  | answers (k : Nat)
  | dropped (k : Nat)

inductive MeshMove where
  | block (m : BlockMove)
  | unblock (m : UnblockMove)
  /-- A move of the change lands whose call had ended, or the fabric-primary moves itself. -/
  | lateMove (location : Nat) (provider : String) (mover : Except String Unit)
  /-- A fresh birth is at the location. -/
  | replaced (location : Nat) (provider : String)
  /-- The role moves. -/
  | elected (location : Nat)

namespace MeshRun

def primary (s : MeshRun) : Option Birth := s.births[s.lead]?

/-- The exact birth, when it is there still. -/
def serving (s : MeshRun) (subject : Subject) : Option Birth :=
  s.births[subject.1]?.filter fun b => b.generation == subject.2

/-- `StorageMoves::block` at the exact birth, and whether it answers `StorageBlocked`. -/
def freeze (changeId : String) (s : MeshRun) (subject : Subject) : MeshRun × Bool :=
  match s.births[subject.1]? with
  | some b =>
    if b.generation = subject.2 then
      ({ s with births := s.births.set subject.1 { b with moves := (b.moves.block changeId).1 } },
        (b.moves.block changeId).2 == .storageBlocked)
    else (s, false)
  | none => (s, false)

def setBlock (s : MeshRun) (k : Nat) (me : Subject) (stage : BlockServe) : MeshRun :=
  { s with blocks := s.blocks.set k (me, stage) }

def setUnblock (s : MeshRun) (k : Nat) (me : Subject) (stage : UnblockServe) : MeshRun :=
  { s with unblocks := s.unblocks.set k (me, stage) }

def setBirth (s : MeshRun) (location : Nat) (b : Birth) : MeshRun := { s with births := s.births.set location b }

/-- The birth at the location serves a move of the change; whether it answers `StorageStepped`. -/
def move (changeId : String) (s : MeshRun) (location : Nat) (provider : String) (mover : Except String Unit) : MeshRun × Bool :=
  match s.births[location]? with
  | some b =>
    (s.setBirth location { b with moves := (b.moves.moveOwn changeId provider mover).1 },
      match (b.moves.moveOwn changeId provider mover).2 with
      | .storageStepped _ => true
      | _ => false)
  | none => (s, false)

def stepBlock (changeId : String) (s : MeshRun) : BlockMove → MeshRun
  | .sends location =>
    match s.births[location]? with
    | some b => { s with blocks := s.blocks ++ [((location, b.generation), .arrived)] }
    | none => s
  | .begins k view =>
    match s.blocks[k]? with
    | some (me, .arrived) =>
      match s.serving me with
      | some _ => if me.1 = s.lead then s.setBlock k me (.freezing view) else s.setBlock k me .refused
      | none => s.setBlock k me .refused
    | _ => s
  | .freezes k =>
    match s.blocks[k]? with
    | some (me, .freezing (subject :: rest)) =>
      match s.serving me with
      | some _ =>
        if (s.freeze changeId subject).2 then (s.freeze changeId subject).1.setBlock k me (.freezing rest)
        else (s.freeze changeId subject).1.setBlock k me .refused
      | none => s.setBlock k me .refused
    | _ => s
  | .unanswered k =>
    match s.blocks[k]? with
    | some (me, .freezing (subject :: _)) => { s.setBlock k me .refused with late := s.late ++ [subject] }
    | _ => s
  | .lateFreeze j =>
    match s.late[j]? with
    | some subject => { (s.freeze changeId subject).1 with late := s.late.eraseIdx j }
    | none => s
  | .lateLost j => { s with late := s.late.eraseIdx j }
  | .marks k =>
    match s.blocks[k]? with
    | some (me, .freezing []) =>
      match s.serving me with
      | some b => (s.setBirth me.1 { b with blocked := true }).setBlock k me .marked
      | none => s.setBlock k me .refused
    | some (me, .marked) =>
      match s.serving me with
      | some b => (s.setBirth me.1 { b with rowsHeld := true }).setBlock k me .waiting
      | none => s.setBlock k me .refused
    | _ => s
  | .answers k =>
    match s.blocks[k]? with
    | some (me, .waiting) => s.setBlock k me (if (s.serving me).isSome then .blocked else .refused)
    | _ => s
  | .dropped k =>
    match s.blocks[k]? with
    -- A freeze of the own birth it is at is retained.
    | some (me, .freezing (subject :: _)) => { s.setBlock k me .refused with late := s.late ++ [subject] }
    | some (me, _) => s.setBlock k me .refused
    | none => s

def stepUnblock (changeId : String) (s : MeshRun) : UnblockMove → MeshRun
  | .sends location =>
    match s.births[location]? with
    | some b => { s with unblocks := s.unblocks ++ [((location, b.generation), .arrived)] }
    | none => s
  | .reads k decided =>
    match s.unblocks[k]? with
    | some (me, .arrived) =>
      s.setUnblock k me (match decided, s.serving me with
        | some provider, some _ => if me.1 = s.lead then .read provider else .refused
        | _, _ => .refused)
    | _ => s
  | .movesOwn k mover =>
    match s.unblocks[k]? with
    | some (me, .read provider) =>
      match s.serving me with
      | some _ =>
        if (s.move changeId me.1 provider mover).2 then
          (s.move changeId me.1 provider mover).1.setUnblock k me (.ownMoved provider)
        else (s.move changeId me.1 provider mover).1.setUnblock k me .refused
      | none => s.setUnblock k me .refused
    | _ => s
  | .releasesRows k view =>
    match s.unblocks[k]? with
    | some (me, .ownMoved provider) =>
      match s.serving me with
      | some b =>
        (s.setBirth me.1 { b with rowsHeld := false }).setUnblock k me
          (.moving provider (view.filter fun l => decide (l ≠ me.1)))
      | none => s.setUnblock k me .refused
    | _ => s
  | .moves k location mover =>
    match s.unblocks[k]? with
    | some (me, .moving provider left) =>
      match s.serving me with
      | some _ =>
        -- Carried by the mesh-primary alone.
        if me.1 = s.lead ∧ location ∈ left ∧ (s.move changeId location provider mover).2 = true then
          (s.move changeId location provider mover).1.setUnblock k me (.moving provider (left.filter fun l => decide (l ≠ location)))
        else s
      | none => s.setUnblock k me .refused
    | _ => s
  | .releases k =>
    match s.unblocks[k]? with
    | some (me, .moving provider []) =>
      match s.serving me with
      | some b => (s.setBirth me.1 { b with rowsHeld := false }).setUnblock k me (.rowsReleased provider)
      | none => s.setUnblock k me .refused
    | _ => s
  | .answers k =>
    match s.unblocks[k]? with
    | some (me, .rowsReleased provider) =>
      match s.serving me with
      | some b => (s.setBirth me.1 { b with blocked := false }).setUnblock k me (.unblocked provider)
      | none => s.setUnblock k me .refused
    | _ => s
  | .dropped k =>
    match s.unblocks[k]? with
    | some (me, .unblocked provider) => s.setUnblock k me (.unblocked provider)
    | some (me, _) => s.setUnblock k me .refused
    | none => s

def step (changeId : String) (s : MeshRun) : MeshMove → MeshRun
  | .block m => s.stepBlock changeId m
  | .unblock m => s.stepUnblock changeId m
  | .lateMove location provider mover => (s.move changeId location provider mover).1
  | .replaced location provider =>
    match s.births[location]? with
    | some b => s.setBirth location ⟨b.generation + 1, ⟨[], none, provider, true⟩, false, false⟩
    | none => s
  | .elected location => if location < s.births.length then { s with lead := location } else s

end MeshRun

namespace UnblockServe

def answered : UnblockServe → Bool
  | .unblocked _ => true
  | _ => false

/-- It moved its own birth, and was not refused since. -/
def opened : UnblockServe → Bool
  | .ownMoved _ => true
  | .moving _ _ => true
  | .rowsReleased _ => true
  | .unblocked _ => true
  | _ => false

def isOver : UnblockServe → Bool
  | .unblocked _ => true
  | .refused => true
  | _ => false

end UnblockServe

def BlockServe.isOver : BlockServe → Bool
  | .blocked => true
  | .refused => true
  | _ => false

/-- Every command of the change that reached the mesh has been served. -/
def MeshRun.Served (s : MeshRun) : Prop :=
  (∀ x ∈ s.blocks, x.2.isOver = true) ∧ (∀ u ∈ s.unblocks, u.2.isOver = true) ∧ s.late = []

instance MeshRun.Served.decidable (s : MeshRun) : Decidable s.Served :=
  inferInstanceAs (Decidable ((∀ x ∈ s.blocks, x.2.isOver = true) ∧ (∀ u ∈ s.unblocks, u.2.isOver = true) ∧ s.late = []))

/-- A change over its meshes, and whether its ended event is written. -/
structure FabricRun where
  meshes : List MeshRun
  ended : Bool
deriving DecidableEq

inductive FabricMove where
  | inMesh (i : Nat) (m : MeshMove)
  | writesEnded

namespace FabricRun

def step (changeId : String) (s : FabricRun) : FabricMove → FabricRun
  | .inMesh i m =>
    match s.meshes[i]? with
    | some mesh => { s with meshes := s.meshes.set i (mesh.step changeId m) }
    | none => s
  -- Written once every mesh's mesh-primary answered `unblocked`.
  | .writesEnded => if s.meshes.all fun mesh => mesh.unblocks.any fun u => u.2.answered then { s with ended := true } else s

end FabricRun

end DistributedMesh.Storage
