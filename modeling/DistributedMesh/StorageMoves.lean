import Mathlib.Data.List.Basic
import Mathlib.Tactic.Common

namespace DistributedMesh.Storage

/-- A change of the fabric's storage from one registered provider to another. -/
structure StorageChange where
  changeId : String
  /-- `from`, the provider the fabric writes. -/
  old : String
  /-- `to`. -/
  new : String
  apart : old ≠ new

/-- What a birth answers a storage command. -/
inductive NodeCommandReply where
  | storageBlocked
  | storageStepped (provider : String)
  | rejectedStaleChange (held : String)
  | notReady (reason : String)
  | failed (step reason : String)
deriving DecidableEq

/-- A birth's storage change moves: the changes it acted on with the provider of each, the latest last; the change that froze
its property writer; the provider it writes; whether it has a property writer. -/
structure StorageMoves where
  acted : List (String × String)
  blocked : Option String
  provider : String
  properties : Bool
deriving DecidableEq

namespace StorageMoves

/-- Freeze the property writer. -/
def block (m : StorageMoves) (changeId : String) : StorageMoves × NodeCommandReply :=
  match m.blocked with
  | some held => (m, if held = changeId then .storageBlocked else .rejectedStaleChange held)
  | none =>
    if m.acted.any fun c => c.1 == changeId then (m, .rejectedStaleChange changeId)
    else if m.properties then ({ m with blocked := some changeId }, .storageBlocked)
    else (m, .notReady "this birth has no own property writer to block")

/-- The refusal a move meets before it is accepted: a change older than the one the birth acted on last. -/
def refusal (m : StorageMoves) (changeId provider : String) : Option NodeCommandReply :=
  match m.blocked.filter fun held => held ≠ changeId, m.acted.getLast? with
  | some held, _ => some (.rejectedStaleChange held)
  | none, none => none
  | none, some latest =>
    if latest.1 = changeId ∧ latest.2 = provider then none
    else if m.acted.any fun c => c.1 == changeId then some (.rejectedStaleChange latest.1)
    else none

def moved (m : StorageMoves) (changeId provider : String) : StorageMoves :=
  { m with acted := m.acted ++ [(changeId, provider)], blocked := none, provider := provider }

/-- `move_retained`: move onto the provider, `mover` being how opening it ends. -/
def serve (m : StorageMoves) (changeId provider : String) (mover : Except String Unit) : StorageMoves × NodeCommandReply :=
  match m.blocked.filter fun held => held ≠ changeId with
  | some held => (m, .rejectedStaleChange held)
  | none =>
    if m.blocked = none ∧ m.properties = true ∧ m.provider ≠ provider ∧ ¬ m.acted.any (fun c => c.1 == changeId) then
      (m, .notReady "the node's properties must be blocked before this storage move")
    else
      match m.acted.find? fun c => c.1 == changeId, m.acted.getLast? with
      | some done, some latest =>
        if latest.1 = changeId ∧ done.2 = provider then (m, .storageStepped done.2) else (m, .rejectedStaleChange latest.1)
      | some done, none => (m, .storageStepped done.2)
      | none, _ =>
        if m.provider = provider then (m.moved changeId provider, .storageStepped provider)
        else
          match mover with
          | .ok () => (m.moved changeId provider, .storageStepped provider)
          | .error e => (m, .failed "storage-step" e)

/-- `move_own`, a mesh-primary's move of itself. -/
def moveOwn (m : StorageMoves) (changeId provider : String) (mover : Except String Unit) : StorageMoves × NodeCommandReply :=
  match m.refusal changeId provider with
  | some refused => (m, refused)
  | none => m.serve changeId provider mover

/-- Whether the change froze the birth's property writer. -/
def FrozenBy (m : StorageMoves) (changeId : String) : Prop := m.blocked = some changeId

def HasActed (m : StorageMoves) (changeId : String) : Prop := ∃ provider, (changeId, provider) ∈ m.acted

/-- A move of a change changes nothing, or is the change's only one and releases the freeze. -/
theorem serve_cases (m : StorageMoves) (changeId provider : String) (mover : Except String Unit) :
    (m.serve changeId provider mover).1 = m ∧
        (∀ p, (m.serve changeId provider mover).2 = .storageStepped p → (changeId, p) ∈ m.acted) ∨
      m.serve changeId provider mover = (m.moved changeId provider, .storageStepped provider) ∧ ¬ m.HasActed changeId := by
  have hnone : m.acted.find? (fun c => c.1 == changeId) = none → ¬ m.HasActed changeId := by
    rintro hfind ⟨p, hp⟩
    have hno := List.find?_eq_none.mp hfind _ hp
    simp at hno
  unfold serve
  split
  next => exact .inl ⟨rfl, fun p hp => by cases hp⟩
  next =>
    split
    next => exact .inl ⟨rfl, fun p hp => by cases hp⟩
    next =>
      split
      next done latest hdone _ =>
        have hchange : done.1 = changeId := by simpa using List.find?_some hdone
        have hmem := List.mem_of_find?_eq_some hdone
        split
        next =>
          refine .inl ⟨rfl, fun p hp => ?_⟩
          cases hp
          rw [← hchange]
          exact hmem
        next => exact .inl ⟨rfl, fun p hp => by cases hp⟩
      next done hdone _ =>
        have hchange : done.1 = changeId := by simpa using List.find?_some hdone
        refine .inl ⟨rfl, fun p hp => ?_⟩
        cases hp
        rw [← hchange]
        exact List.mem_of_find?_eq_some hdone
      next hfind =>
        split
        next => exact .inr ⟨rfl, hnone hfind⟩
        next =>
          split
          next => exact .inr ⟨rfl, hnone hfind⟩
          next => exact .inl ⟨rfl, fun p hp => by cases hp⟩

theorem moveOwn_cases (m : StorageMoves) (changeId provider : String) (mover : Except String Unit) :
    (m.moveOwn changeId provider mover).1 = m ∧
        (∀ p, (m.moveOwn changeId provider mover).2 = .storageStepped p → (changeId, p) ∈ m.acted) ∨
      m.moveOwn changeId provider mover = (m.moved changeId provider, .storageStepped provider) ∧ ¬ m.HasActed changeId := by
  unfold moveOwn
  split
  next refused hrefused =>
    refine .inl ⟨rfl, fun p hp => ?_⟩
    have hp : refused = .storageStepped p := hp
    subst hp
    unfold refusal at hrefused
    split at hrefused
    next => cases hrefused
    next => cases hrefused
    next =>
      split at hrefused
      next => cases hrefused
      next => split at hrefused <;> cases hrefused
  next => exact m.serve_cases changeId provider mover

theorem moveOwn_stepped {m : StorageMoves} {changeId provider p : String} {mover : Except String Unit}
    (h : (m.moveOwn changeId provider mover).2 = .storageStepped p) :
    (changeId, p) ∈ (m.moveOwn changeId provider mover).1.acted := by
  rcases m.moveOwn_cases changeId provider mover with ⟨hsame, hacted⟩ | ⟨hmoved, _⟩
  · rw [hsame]
    exact hacted p h
  · rw [hmoved] at h ⊢
    cases h
    exact List.mem_append_right _ List.mem_cons_self

theorem moveOwn_acted {m : StorageMoves} {changeId provider p : String} {mover : Except String Unit}
    (h : (changeId, p) ∈ (m.moveOwn changeId provider mover).1.acted) : (changeId, p) ∈ m.acted ∨ p = provider := by
  rcases m.moveOwn_cases changeId provider mover with ⟨hsame, _⟩ | ⟨hmoved, _⟩
  · rw [hsame] at h
    exact .inl h
  · rw [hmoved] at h
    rcases List.mem_append.mp h with h | h
    · exact .inl h
    · obtain ⟨_, rfl⟩ := Prod.mk.inj (List.mem_singleton.mp h)
      exact .inr rfl

end StorageMoves

end DistributedMesh.Storage
