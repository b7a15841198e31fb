import DistributedMesh.KeyedMaps
import DistributedMesh.LexCode
import Mathlib.Tactic.Ring

namespace DistributedMesh.Build

open Std (ExtTreeMap ExtTreeSet)
open LexCode KeyedMaps

/-- One launch id's executable. -/
structure Binding where
  launchId : String
  executable : String
  sha256 : String
  image : Option String
deriving DecidableEq

inductive PersistentDisposition where
  | preserve
  | release
deriving DecidableEq

inductive StoragePersistence where
  | ephemeral
  | persistent (disposition : PersistentDisposition)
deriving DecidableEq

/-- A mesh a change adds. -/
structure Meshes where
  name : String
deriving DecidableEq

/-- A node a change adds, whole. -/
structure Nodes where
  path : String
  name : String
  mesh : String
  type : String
  /-- None is the type's. -/
  storagePersistence : Option StoragePersistence
  executable : Option Binding
  tags : List String
  config : List (String × String)
deriving DecidableEq

inductive BuildChange where
  | create (meshes : List Meshes) (nodes : List Nodes)
  | delete (meshes nodeIds : List String)
  | deleteFabric
deriving DecidableEq

/-- A Build as the fabric-primary accepted it; `T` is the topology it realizes. -/
structure BuildAccepted (T : Type) where
  buildId : String
  topology : T
  change : BuildChange
  source : Option String
  time : UInt64
deriving DecidableEq

/-- One record of the Build log. -/
inductive BuildFact (T : Type) where
  | accepted (a : BuildAccepted T)
  /-- A finished Build leaves the views. -/
  | forget (buildId : String)
deriving DecidableEq

variable {T : Type}

def BuildFact.buildId : BuildFact T → String
  | .accepted a => a.buildId
  | .forget buildId => buildId

/-- The acceptance stamp's order: the time, then the id. -/
def stampCode : Code (UInt64 × String) := pairCode (natCode.comap UInt64.toNat fun _ _ => UInt64.toNat_inj.mp) stringCode

instance stampOrdered : Std.TransCmp stampCode.cmp := inferInstance

def BuildAccepted.stamp (a : BuildAccepted T) : UInt64 × String := (a.time, a.buildId)

/-- The facts readers see, and their indexes. -/
structure FactLog (T : Type) where
  facts : List (BuildFact T)
  /-- Every Build accepted, by its own acceptance stamp. -/
  acceptedOrder : ExtTreeSet (UInt64 × String) stampCode.cmp
  /-- Each Build's own facts, by their position. -/
  byBuild : ExtTreeMap String (List Nat) stringCode.cmp

/-- Why a Build store call failed. -/
inductive BuildStateError where
  | unknownBuild (buildId : String)
  | conflictingIntent (buildId : String)
  | io (reason : String)
deriving DecidableEq

/-- The Builds of the facts by id, forgotten ones left out. -/
def fold (facts : List (BuildFact T)) : ExtTreeMap String (BuildAccepted T) stringCode.cmp :=
  facts.foldl
    (fun out f =>
      match f with
      | .accepted a => if out.contains a.buildId then out else out.insert a.buildId a
      | .forget buildId => out.erase buildId)
    ∅

def known (facts : List (BuildFact T)) (buildId : String) : Bool :=
  facts.any fun f =>
    match f with
    | .accepted i => i.buildId == buildId
    | .forget _ => false

theorem known_append (facts more : List (BuildFact T)) (id : String) :
    known (facts ++ more) id = (known facts id || known more id) := by
  unfold known
  rw [List.any_append]

/-- Whether the fact adds anything to the facts. -/
def isNew [DecidableEq T] (facts : List (BuildFact T)) : BuildFact T → Bool
  | .accepted i => !known facts i.buildId
  | f@(.forget _) => !facts.contains f

/-- Whether the Build is held already, is free, or is held with another intent. -/
def acceptedConflict [DecidableEq T] : List (BuildFact T) → BuildAccepted T → Except BuildStateError Bool
  | [], _ => .ok false
  | .accepted i :: facts, accepted =>
    if i.buildId = accepted.buildId then if i = accepted then .ok true else .error (.conflictingIntent accepted.buildId)
    else acceptedConflict facts accepted
  | .forget _ :: facts, accepted => acceptedConflict facts accepted

def read (facts : List (BuildFact T)) (buildId : String) : Except BuildStateError (BuildAccepted T) :=
  match (fold facts)[buildId]? with
  | some a => .ok a
  | none => .error (.unknownBuild buildId)

/-- A fact, or its Build's acceptance as it is stored. -/
def asStored (stored : List (BuildAccepted T)) : BuildFact T → BuildFact T
  | .accepted a => .accepted ((stored.find? fun s => s.buildId == a.buildId).getD a)
  | .forget buildId => .forget buildId

namespace FactLog

def empty : FactLog T := ⟨[], ∅, ∅⟩

/-- The fact, which sits at its position of the facts, goes into the indexes. -/
def index (log : FactLog T) (fact : BuildFact T) (position : Nat) : FactLog T where
  facts := log.facts
  acceptedOrder :=
    match fact with
    | .accepted a => log.acceptedOrder.insert a.stamp
    | .forget _ => log.acceptedOrder
  byBuild := log.byBuild.insert fact.buildId (log.byBuild[fact.buildId]?.getD [] ++ [position])

/-- Facts the log does not hold yet are published to readers. -/
def publish (log : FactLog T) (new : List (BuildFact T)) : FactLog T :=
  if new.isEmpty then log
  else
    let indexed := (new.zipIdx log.facts.length).foldl (fun log f => log.index f.1 f.2) log
    { indexed with facts := log.facts ++ new }

/-- The Builds as the store root records them, each in place of the copy held of it. -/
def takeStoredAcceptances (log : FactLog T) (stored : List (BuildAccepted T)) : FactLog T :=
  if stored.isEmpty then log else { log with facts := log.facts.map (asStored stored) }

/-- The Build from its own facts alone. -/
def readOwn (log : FactLog T) (buildId : String) : Except BuildStateError (BuildAccepted T) :=
  read ((log.byBuild[buildId]?.getD []).filterMap fun i => log.facts[i]?) buildId

def acceptedNewestFirst (log : FactLog T) : List String := log.acceptedOrder.toList.reverse.map Prod.snd

/-- The records brought that the log does not hold, each once, the first of them. -/
def unseen [DecidableEq T] (held facts : List (BuildFact T)) : List (BuildFact T) :=
  facts.foldl (fun new f => if isNew held f && isNew new f then new ++ [f] else new) []

/-- Records read from storage are merged: a record is insert-and-fail. -/
def absorb [DecidableEq T] (log : FactLog T) (facts : List (BuildFact T)) : FactLog T :=
  log.publish (unseen log.facts facts)

/-- Each Build's positions are those of its facts. -/
def Positioned (log : FactLog T) : Prop :=
  ∀ buildId, log.byBuild[buildId]?.getD [] = (log.facts.zipIdx.filter fun f => f.1.buildId = buildId).map Prod.snd

/-- The acceptance-order index holds the stamps of the acceptances held. -/
def Ordered (log : FactLog T) : Prop :=
  ∀ stamp, stamp ∈ log.acceptedOrder ↔ ∃ a, .accepted a ∈ log.facts ∧ a.stamp = stamp

end FactLog

/-- What a Build is after one more fact. -/
def answerAfter (buildId : String) (held : Option (BuildAccepted T)) : BuildFact T → Option (BuildAccepted T)
  | .accepted a => if a.buildId = buildId then held.or (some a) else held
  | .forget forgotten => if forgotten = buildId then none else held

theorem answerAfter_other {buildId : String} (held : Option (BuildAccepted T)) {f : BuildFact T}
    (h : f.buildId ≠ buildId) : answerAfter buildId held f = held := by
  cases f with
  | accepted a => exact if_neg h
  | forget forgotten => exact if_neg h

/-- What the facts answer of a Build. -/
def answer (facts : List (BuildFact T)) (buildId : String) : Option (BuildAccepted T) :=
  facts.foldl (answerAfter buildId) none

theorem getElem?_fold (facts : List (BuildFact T)) (buildId : String) : (fold facts)[buildId]? = answer facts buildId := by
  unfold fold answer
  have hrun : ∀ (out : ExtTreeMap String (BuildAccepted T) stringCode.cmp),
      (facts.foldl
        (fun out f =>
          match f with
          | .accepted a => if out.contains a.buildId then out else out.insert a.buildId a
          | .forget buildId => out.erase buildId) out)[buildId]? = facts.foldl (answerAfter buildId) out[buildId]? := by
    induction facts with
    | nil => exact fun _ => rfl
    | cons f facts ih =>
      intro out
      rw [List.foldl_cons, List.foldl_cons, ih]
      congr 1
      cases f with
      | accepted a =>
        dsimp only [answerAfter]
        by_cases hid : a.buildId = buildId
        · subst hid
          rw [if_pos rfl]
          cases hheld : out[a.buildId]? with
          | none =>
            have hnot : out.contains a.buildId = false := by
              rw [← Bool.not_eq_true, Std.ExtTreeMap.contains_iff_mem]
              exact not_mem_of_lookup hheld
            rw [hnot, if_neg Bool.false_ne_true, getElem?_insert_eq, if_pos rfl]
            rfl
          | some b =>
            have hin : out.contains a.buildId = true := Std.ExtTreeMap.contains_iff_mem.mpr (mem_of_lookup hheld)
            rw [hin, if_pos rfl, hheld]
            rfl
        · rw [if_neg hid]
          split
          next => rfl
          next => rw [getElem?_insert_eq, if_neg hid]
      | forget forgotten =>
        dsimp only [answerAfter]
        rw [getElem?_erase_eq]
  rw [hrun]
  simp

/-- A Build's answer rests on its own facts. -/
theorem answer_filter (facts : List (BuildFact T)) (buildId : String) :
    answer (facts.filter fun f => f.buildId = buildId) buildId = answer facts buildId := by
  unfold answer
  generalize (none : Option (BuildAccepted T)) = held
  induction facts generalizing held with
  | nil => rfl
  | cons f facts ih =>
    by_cases hid : f.buildId = buildId
    · rw [List.filter_cons, if_pos (by simpa using hid), List.foldl_cons, List.foldl_cons, ih]
    · rw [List.filter_cons, if_neg (by simpa using hid), List.foldl_cons, ih]
      rw [answerAfter_other held hid]

theorem answer_append (facts : List (BuildFact T)) (f : BuildFact T) (buildId : String) :
    answer (facts ++ [f]) buildId = answerAfter buildId (answer facts buildId) f := by
  unfold answer
  rw [List.foldl_append]
  rfl

theorem read_eq (facts : List (BuildFact T)) (buildId : String) :
    read facts buildId = (answer facts buildId).elim (.error (.unknownBuild buildId)) .ok := by
  unfold read
  rw [getElem?_fold]
  cases answer facts buildId with
  | none => rfl
  | some a => rfl

namespace FactLog

variable {log : FactLog T} {new : List (BuildFact T)}

theorem Positioned.own (h : log.Positioned) (buildId : String) :
    ((log.byBuild[buildId]?.getD []).filterMap fun i => log.facts[i]?) = log.facts.filter fun f => f.buildId = buildId := by
  rw [h buildId, List.filterMap_map]
  have hat : ∀ f ∈ log.facts.zipIdx.filter fun f => f.1.buildId = buildId, log.facts[f.2]? = some f.1 := by
    intro f hf
    have hmem := (List.mem_filter.mp hf).1
    rw [List.mem_zipIdx_iff_getElem?] at hmem
    exact hmem
  rw [List.filterMap_congr (g := fun f => some f.1) (by simpa using hat), List.filterMap_eq_map']
  have hfst : log.facts.zipIdx.map Prod.fst = log.facts := by simp
  conv_rhs => rw [← hfst, List.filter_map]
  rfl

theorem Positioned.readOwn_eq (h : log.Positioned) (buildId : String) :
    log.readOwn buildId = (answer log.facts buildId).elim (.error (.unknownBuild buildId)) .ok := by
  unfold readOwn
  rw [h.own, read_eq, answer_filter]

theorem facts_publish (log : FactLog T) (new : List (BuildFact T)) : (log.publish new).facts = log.facts ++ new := by
  unfold publish
  split
  next hempty =>
    have hnil : new = [] := by simpa using hempty
    rw [hnil, List.append_nil]
  next => rfl

theorem index_foldl (new : List (BuildFact T)) (log : FactLog T) (base : Nat) :
    (∀ buildId, ((new.zipIdx base).foldl (fun log f => log.index f.1 f.2) log).byBuild[buildId]?.getD [] =
      log.byBuild[buildId]?.getD [] ++ ((new.zipIdx base).filter fun f => f.1.buildId = buildId).map Prod.snd) ∧
    ∀ stamp, stamp ∈ ((new.zipIdx base).foldl (fun log f => log.index f.1 f.2) log).acceptedOrder ↔
      stamp ∈ log.acceptedOrder ∨ ∃ a, .accepted a ∈ new ∧ a.stamp = stamp := by
  induction new generalizing log base with
  | nil => simp
  | cons f new ih =>
    obtain ⟨hbuild, horder⟩ := ih (log.index f base) (base + 1)
    constructor
    · intro buildId
      rw [List.zipIdx_cons, List.foldl_cons, hbuild buildId, List.filter_cons]
      show (log.byBuild.insert f.buildId _)[buildId]?.getD [] ++ _ = _
      rw [getElem?_insert_eq]
      by_cases hid : f.buildId = buildId
      · simp [hid]
      · simp [hid]
    · intro stamp
      rw [List.zipIdx_cons, List.foldl_cons, horder stamp]
      cases f with
      | accepted a =>
        show stamp ∈ log.acceptedOrder.insert a.stamp ∨ _ ↔ _
        rw [mem_insert_set]
        constructor
        · rintro ((rfl | hheld) | ⟨b, hb, rfl⟩)
          · exact .inr ⟨a, List.mem_cons_self, rfl⟩
          · exact .inl hheld
          · exact .inr ⟨b, List.mem_cons_of_mem _ hb, rfl⟩
        · rintro (hheld | ⟨b, hb, rfl⟩)
          · exact .inl (.inr hheld)
          · rcases List.mem_cons.mp hb with hab | hb
            · cases hab
              exact .inl (.inl rfl)
            · exact .inr ⟨b, hb, rfl⟩
      | forget forgotten =>
        show stamp ∈ log.acceptedOrder ∨ _ ↔ _
        simp

theorem Positioned.publish (h : log.Positioned) : (log.publish new).Positioned := by
  intro buildId
  rw [facts_publish]
  unfold FactLog.publish
  split
  next hempty =>
    have hnil : new = [] := by simpa using hempty
    rw [hnil, List.append_nil]
    exact h buildId
  next =>
    dsimp only
    rw [(index_foldl new log log.facts.length).1 buildId, h buildId, List.zipIdx_append]
    simp

theorem Ordered.publish (h : log.Ordered) : (log.publish new).Ordered := by
  intro stamp
  rw [facts_publish]
  unfold FactLog.publish
  split
  next hempty =>
    have hnil : new = [] := by simpa using hempty
    rw [hnil, List.append_nil]
    exact h stamp
  next =>
    dsimp only
    rw [(index_foldl new log log.facts.length).2 stamp, h stamp]
    simp only [List.mem_append, or_and_right, exists_or]

theorem positioned_empty : (empty : FactLog T).Positioned := by
  intro buildId
  simp [empty]

theorem ordered_empty : (empty : FactLog T).Ordered := by
  intro stamp
  simp [empty]

end FactLog

end DistributedMesh.Build
