import DistributedMesh.BuildPlan
import DistributedMesh.Framing

namespace DistributedMesh.MeshDelete

open Std (ExtTreeMap ExtTreeSet)
open LexCode KeyedMaps
open Build (BuildStep Node PathName completed operationOn operationText)
open Framing (canonical)

/-- One accepted birth of the leaving mesh. -/
structure RosterBirth where
  mesh : String
  type : String
  /-- The path and the name. -/
  node : PathName
  nodeId : String
  incarnationId : String
deriving DecidableEq

/-- An exact runtime by fingerprint. -/
structure RuntimeIdentity where
  deploymentId : String
  provider : String
  controlDomainFingerprint : String
  locatorKind : String
  locatorFingerprint : String
deriving DecidableEq

/-- The provider's exact inspection said the birth's runtime exited. -/
structure TerminalReceipt where
  path : String
  name : String
  nodeId : String
  incarnationId : String
  runtime : Option RuntimeIdentity
  exitCode : Option Int
  verdict : Option String
  dataDir : Option String
deriving DecidableEq

/-- The accepted roster, and the terminal receipt of every birth that exited. -/
structure ExitManifest where
  meshId : String
  roster : List RosterBirth
  finalPrimary : RosterBirth
  finalRuntime : Option RuntimeIdentity
  receipts : List TerminalReceipt
deriving DecidableEq

/-- A record of a node, its id a minted one. -/
structure MemberRecord where
  node : Node
  isMinted : canonical node.nodeId = true
deriving DecidableEq

/-- The id of a roster birth that is not a canonical one. -/
inductive RecordRefusal where
  | nodeId
  | incarnation
deriving DecidableEq

namespace RosterBirth

/-- The node and its exact birth. -/
def birth (b : RosterBirth) : String × String := (b.nodeId, b.incarnationId)

def fields (b : RosterBirth) : String × String × PathName × String × String :=
  (b.mesh, b.type, b.node, b.nodeId, b.incarnationId)

theorem fields_injective : Function.Injective fields := by
  intro a b h
  cases a
  cases b
  cases h
  rfl

/-- The record of this exact birth the accepted roster alone gives. -/
def record (b : RosterBirth) : Except RecordRefusal MemberRecord :=
  if h : canonical b.nodeId = true then
    if canonical b.incarnationId then
      .ok ⟨{ path := b.node.1, name := b.node.2, type := b.type, mesh := b.mesh, nodeId := b.nodeId
             incarnationId := some b.incarnationId, status := .leaving, isPrimary := false, isFabricPrimary := false
             stopped := false }, h⟩
    else .error .incarnation
  else .error .nodeId

end RosterBirth

def rosterCode : Code RosterBirth :=
  (pairCode stringCode (pairCode stringCode (pairCode Build.pathNameCode (pairCode stringCode stringCode)))).comap
    RosterBirth.fields RosterBirth.fields_injective

def TerminalReceipt.birth (t : TerminalReceipt) : String × String := (t.nodeId, t.incarnationId)

def exactCode : Code (String × String) := pairCode stringCode stringCode

instance exactOrdered : Std.TransCmp exactCode.cmp := inferInstance

abbrev Births := ExtTreeSet (String × String) exactCode.cmp

def sorted (roster : List RosterBirth) : List RosterBirth := roster.mergeSort fun a b => (rosterCode.cmp a b).isLE

def joinedOr (texts : List String) : String := if texts = [] then "none" else ", ".intercalate texts

def birthText (b : RosterBirth) : String := b.nodeId ++ " " ++ b.incarnationId

/-- The births whose exit a manifest proves. -/
def needed (roster : List RosterBirth) (finalPrimary : RosterBirth) (withFinal : Bool) : List RosterBirth :=
  roster.filter fun b => withFinal || b != finalPrimary

/-- Each receipt takes its birth out; the first of no birth is named. -/
def takeOut (births : Births) : List TerminalReceipt → Except TerminalReceipt Births
  | [] => .ok births
  | t :: ts => if t.birth ∈ births then takeOut (births.erase t.birth) ts else .error t

/-- The first field on which a manifest does not cover the roster and the final primary exactly, what is expected of it and
what it reports. -/
def firstMismatch (manifest : ExitManifest) (roster : List RosterBirth) (finalPrimary : RosterBirth) (withFinal : Bool) :
    Option (String × String × String) :=
  let want := sorted roster
  let held := sorted manifest.roster
  if want ≠ held then some ("roster", joinedOr (want.map birthText), joinedOr (held.map birthText))
  else if manifest.finalPrimary ≠ finalPrimary then
    some ("final_primary", birthText finalPrimary, birthText manifest.finalPrimary)
  else
    let births := (needed roster finalPrimary withFinal).map RosterBirth.birth
    match takeOut (.ofList births exactCode.cmp) manifest.receipts with
    | .error t => some ("receipt", "one receipt per roster birth",
        "an unexpected or repeated receipt for " ++ t.nodeId ++ " " ++ t.incarnationId)
    | .ok births => births.toList.head?.map fun k => ("receipt", "a terminal receipt for " ++ k.1 ++ " " ++ k.2, "none")

/-- A step of a node.delete. -/
inductive DeleteStep where
  | nodeDeleting
  | deleteConnections
  | stopNode
  | awaitNodeLeft
  | terminateRuntime
  | nodeDeleted
  | removeTopologyMembership
  | complete
deriving DecidableEq

def DeleteStep.order : List DeleteStep :=
  [.nodeDeleting, .stopNode, .awaitNodeLeft, .terminateRuntime, .nodeDeleted, .removeTopologyMembership, .complete]

def DeleteStep.name : DeleteStep → String
  | .nodeDeleting => "NodeDeleting"
  | .deleteConnections => "DeleteConnections"
  | .stopNode => "StopNode"
  | .awaitNodeLeft => "AwaitNodeLeft"
  | .terminateRuntime => "TerminateRuntime"
  | .nodeDeleted => "NodeDeleted"
  | .removeTopologyMembership => "RemoveTopologyMembership"
  | .complete => "Complete"

/-- A step of the node's own delete ended complete. -/
def deleteCompleted (steps : List BuildStep) (nodeId : String) (step : DeleteStep) : Bool :=
  completed steps (operationText (operationOn "node.delete" (.node nodeId))) step.name

/-- The proof that a roster birth's runtime exited. -/
def exitOf (b : RosterBirth) : TerminalReceipt :=
  { path := b.node.1, name := b.node.2, nodeId := b.nodeId, incarnationId := b.incarnationId, runtime := none
    exitCode := none, verdict := none, dataDir := none }

def exited (steps : List BuildStep) (b : RosterBirth) : Bool :=
  canonical b.nodeId && deleteCompleted steps b.nodeId .terminateRuntime

/-- The births of the roster whose own delete's `TerminateRuntime` ended complete. -/
def exitReceipts (steps : List BuildStep) (roster : List RosterBirth) :
    ExtTreeMap (String × String) TerminalReceipt exactCode.cmp :=
  insertAll TerminalReceipt.birth ∅ ((roster.filter (exited steps)).map exitOf)

/-- Whether the birth's delete ended: its `NodeDeleted` and its `Complete` ended complete. -/
def finishedDelete (steps : List BuildStep) (b : RosterBirth) : Bool :=
  canonical b.nodeId && deleteCompleted steps b.nodeId .nodeDeleted && deleteCompleted steps b.nodeId .complete

/-- The key of one open mesh leave. -/
structure MeshDeleteKey where
  meshId : String
  buildId : String
  /-- `mesh.delete:<mesh_id>`. -/
  operation : OperationId
deriving DecidableEq

/-- The manifest of the leave as the steps prove it. -/
def manifestOf (key : MeshDeleteKey) (roster : List RosterBirth) (finalPrimary : RosterBirth)
    (finalRuntime : Option RuntimeIdentity) (steps : List BuildStep) (withFinal : Bool) : ExitManifest :=
  let exits := exitReceipts steps roster
  { meshId := key.meshId, roster := roster, finalPrimary := finalPrimary, finalRuntime := finalRuntime
    receipts := (needed roster finalPrimary withFinal).filterMap fun b => exits[b.birth]? }

/-- Which exits a manifest proves. -/
inductive ManifestScope where
  | otherMembersExited
  | allMembersExited
deriving DecidableEq

/-- The reference a message carries for a manifest. -/
structure ManifestReference where
  buildId : String
  operation : OperationId
  scope : ManifestScope
deriving DecidableEq

def manifestReference (buildId : String) (operation : OperationId) (allMembers : Bool) : ManifestReference :=
  ⟨buildId, operation, if allMembers then .allMembersExited else .otherMembersExited⟩

/-- What the fabric-primary captured at admission. -/
structure Admitted where
  roster : List RosterBirth
  finalPrimary : RosterBirth
  finalRuntime : RuntimeIdentity

/-- What the fabric-primary decides of a handoff. -/
inductive HandoffVerdict where
  | accept (manifest : ExitManifest)
  | unmatched (field expected reported : String)
  /-- No manifest is recorded; the births no step proves exited. -/
  | incomplete (reason : String) (withoutExit : List String)
deriving DecidableEq

def otherMembersExited : String := "OtherMembersExited"

/-- Every field of the reference names this workflow's manifest. -/
def namesWorkflow (reference : ManifestReference) (key : MeshDeleteKey) : Bool :=
  reference.buildId == key.buildId && reference.operation == key.operation && reference.scope == .otherMembersExited

def incompleteReason (key : MeshDeleteKey) (steps : List BuildStep) (withoutExit : List String) : String :=
  operationText key.operation ++ " (build " ++ key.buildId ++ "): the member workflows are incomplete: no " ++
    otherMembersExited ++ " step ended complete among the " ++ toString steps.length ++
    " events read; roster births whose exit no event proves: " ++
    if withoutExit = [] then "none (every other birth exited, but no exit manifest is recorded)"
    else ", ".intercalate withoutExit

/-- The verdict on the handoff of a leave over the Build's steps; `printed` is how a reference prints. -/
def handoffVerdict (printed : ManifestReference → String) (steps : List BuildStep) (key : MeshDeleteKey)
    (admitted : Admitted) (reference : ManifestReference) : HandoffVerdict :=
  if !namesWorkflow reference key then
    .unmatched "receipt_manifest" (printed (manifestReference key.buildId key.operation false)) (printed reference)
  else if !completed steps (operationText key.operation) otherMembersExited then
    let held := exitReceipts steps admitted.roster
    let withoutExit :=
      (admitted.roster.filter fun b => b != admitted.finalPrimary && !(b.birth ∈ held : Bool)).map birthText
    .incomplete (incompleteReason key steps withoutExit) withoutExit
  else
    let manifest := manifestOf key admitted.roster admitted.finalPrimary (some admitted.finalRuntime) steps false
    match firstMismatch manifest admitted.roster admitted.finalPrimary false with
    | some (field, expected, reported) => .unmatched field expected reported
    | none => .accept manifest

variable {roster : List RosterBirth} {finalPrimary : RosterBirth} {withFinal : Bool}

/-- Receipts of distinct births of the set each take theirs out. -/
theorem takeOut_of_nodup {ts : List TerminalReceipt} (hts : (ts.map TerminalReceipt.birth).Nodup) {births : Births}
    (hmem : ∀ k ∈ ts.map TerminalReceipt.birth, k ∈ births) :
    ∃ rest, takeOut births ts = .ok rest ∧ ∀ k, k ∈ rest ↔ k ∈ births ∧ k ∉ ts.map TerminalReceipt.birth := by
  induction ts generalizing births with
  | nil => exact ⟨births, rfl, fun k => by simp⟩
  | cons t ts ih =>
    rw [List.map_cons, List.nodup_cons] at hts
    have herase : ∀ k, k ∈ births.erase t.birth ↔ k ≠ t.birth ∧ k ∈ births := by
      intro k
      rw [ExtTreeSet.mem_erase, ne_eq, Std.LawfulEqCmp.compare_eq_iff_eq, eq_comm]
    have hrest : ∀ k ∈ ts.map TerminalReceipt.birth, k ∈ births.erase t.birth := by
      intro k hk
      refine (herase k).mpr ⟨?_, hmem k (List.mem_cons_of_mem _ hk)⟩
      rintro rfl
      exact hts.1 hk
    obtain ⟨rest, htaken, hleft⟩ := ih hts.2 hrest
    refine ⟨rest, ?_, fun k => ?_⟩
    · rw [takeOut, if_pos (hmem t.birth List.mem_cons_self), htaken]
    · rw [hleft, herase, List.map_cons, List.mem_cons, not_or]
      exact ⟨fun h => ⟨h.1.2, h.1.1, h.2⟩, fun h => ⟨⟨h.2.1, h.1⟩, h.2.2⟩⟩

/-- A manifest of the roster and its final primary whose receipts are the needed births', in any order, matches. -/
theorem firstMismatch_none {manifest : ExitManifest} (hroster : manifest.roster = roster)
    (hfinal : manifest.finalPrimary = finalPrimary)
    (hnodup : (roster.map RosterBirth.birth).Nodup)
    (hreceipts : (manifest.receipts.map TerminalReceipt.birth).Perm
      ((needed roster finalPrimary withFinal).map RosterBirth.birth)) :
    firstMismatch manifest roster finalPrimary withFinal = none := by
  have hneeded : ((needed roster finalPrimary withFinal).map RosterBirth.birth).Nodup :=
    hnodup.sublist (List.filter_sublist.map _)
  have hmem : ∀ k, k ∈ ExtTreeSet.ofList ((needed roster finalPrimary withFinal).map RosterBirth.birth) exactCode.cmp ↔
      k ∈ manifest.receipts.map TerminalReceipt.birth := by
    intro k
    rw [hreceipts.mem_iff, ExtTreeSet.mem_ofList, List.contains_iff_mem]
  obtain ⟨rest, htaken, hleft⟩ := takeOut_of_nodup (hreceipts.nodup_iff.mpr hneeded) (fun k hk => (hmem k).mpr hk)
  have hempty : rest = ∅ := by
    refine ExtTreeSet.eq_empty_iff_forall_not_mem.mpr fun k hk => ?_
    obtain ⟨hin, hout⟩ := (hleft k).mp hk
    exact hout ((hmem k).mp hin)
  unfold firstMismatch
  dsimp only
  rw [hroster, hfinal, if_neg (fun h => h rfl), if_neg (fun h => h rfl), htaken, hempty]
  rfl

/-- A roster birth's receipt is there exactly when it exited. -/
theorem exitReceipts_at (steps : List BuildStep) (hnodup : (roster.map RosterBirth.birth).Nodup) {b : RosterBirth}
    (hb : b ∈ roster) : (exitReceipts steps roster)[b.birth]? = if exited steps b then some (exitOf b) else none := by
  cases hexited : exited steps b with
  | true =>
    have hd : (((roster.filter (exited steps)).map exitOf).map TerminalReceipt.birth).Nodup := by
      rw [List.map_map]
      exact hnodup.sublist (List.filter_sublist.map _)
    exact getElem?_insertAll_of_mem (v := exitOf b) hd (List.mem_map_of_mem (List.mem_filter.mpr ⟨hb, hexited⟩))
  | false =>
    refine (getElem?_insertAll_of_not_mem fun hmem => ?_).trans ExtTreeMap.getElem?_empty
    rw [List.map_map] at hmem
    obtain ⟨c, hc, hbirth⟩ := List.mem_map.mp hmem
    obtain ⟨hc, hcexited⟩ := List.mem_filter.mp hc
    rw [List.inj_on_of_nodup_map hnodup hc hb hbirth, hexited] at hcexited
    cases hcexited

/-- A handoff whose manifest is recorded and whose other births all exited is accepted. -/
theorem handoffVerdict_accept (printed : ManifestReference → String) {steps : List BuildStep} {key : MeshDeleteKey}
    {admitted : Admitted} {reference : ManifestReference} (hnodup : (admitted.roster.map RosterBirth.birth).Nodup)
    (hreference : namesWorkflow reference key = true)
    (hrecorded : completed steps (operationText key.operation) otherMembersExited = true)
    (hexited : ∀ b ∈ admitted.roster, b ≠ admitted.finalPrimary → exited steps b = true) :
    handoffVerdict printed steps key admitted reference =
      .accept (manifestOf key admitted.roster admitted.finalPrimary (some admitted.finalRuntime) steps false) := by
  have hreceipts : (manifestOf key admitted.roster admitted.finalPrimary (some admitted.finalRuntime) steps false).receipts =
      (needed admitted.roster admitted.finalPrimary false).map exitOf := by
    show (needed admitted.roster admitted.finalPrimary false).filterMap _ = _
    rw [← List.filterMap_eq_map]
    refine List.filterMap_congr fun b hb => ?_
    obtain ⟨hroster, hother⟩ := List.mem_filter.mp hb
    have hother : b ≠ admitted.finalPrimary := by simpa using hother
    rw [exitReceipts_at steps hnodup hroster, hexited b hroster hother]
    rfl
  have hmatches : firstMismatch
      (manifestOf key admitted.roster admitted.finalPrimary (some admitted.finalRuntime) steps false)
      admitted.roster admitted.finalPrimary false = none := by
    refine firstMismatch_none rfl rfl hnodup ?_
    rw [hreceipts, List.map_map]
    exact List.Perm.refl _
  unfold handoffVerdict
  rw [hreference, hrecorded]
  dsimp only
  rw [hmatches]
  rfl

end DistributedMesh.MeshDelete
