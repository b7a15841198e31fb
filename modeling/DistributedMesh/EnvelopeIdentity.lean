import DistributedMesh.EnvelopeTexts
import DistributedMesh.ViewState

namespace DistributedMesh

def OperationId.subject : OperationId → Option OperationSubject
  | .mk _ subject _ _ => subject

def OperationId.step : OperationId → Option Nat
  | .mk _ _ step _ => step

def OperationId.occurrence : OperationId → Option String
  | .mk _ _ _ occurrence => occurrence

theorem OperationId.eq_iff (a b : OperationId) : a = b ↔
    a.action = b.action ∧ a.subject = b.subject ∧ a.step = b.step ∧ a.occurrence = b.occurrence := by
  cases a
  cases b
  simp only [OperationId.mk.injEq, OperationId.action, OperationId.subject, OperationId.step, OperationId.occurrence]

theorem LifecycleOp.identity_eq_iff (a b : LifecycleOp) : a.identity = b.identity ↔
    a.buildId = b.buildId ∧ a.operation = b.operation ∧ a.nodeId = b.nodeId ∧ a.incarnation = b.incarnation := by
  simp only [LifecycleOp.identity, LifecycleIdentity.mk.injEq]

end DistributedMesh

namespace DistributedMesh.Gossip

open ByteFormats (forall_byte utf8Encode_injective)
open Framing (canonical)

section Readback

def hexValue (c : Char) : Nat := if c.toNat < 65 then c.toNat - 48 else c.toNat - 55

/-- The bytes an escaped text stands for. -/
def unescaped : List Char → List UInt8
  | '%' :: high :: low :: rest => UInt8.ofNat (16 * hexValue high + hexValue low) :: unescaped rest
  | c :: rest => UInt8.ofNat c.toNat :: unescaped rest
  | [] => []

theorem escapedByte_cases (b : UInt8) :
    (escapedByte b = [Char.ofUInt8 b] ∧ Char.ofUInt8 b ≠ '%' ∧ UInt8.ofNat (Char.ofUInt8 b).toNat = b) ∨
      (escapedByte b = ['%', hexDigit (b.toNat / 16), hexDigit (b.toNat % 16)] ∧
        UInt8.ofNat (16 * hexValue (hexDigit (b.toNat / 16)) + hexValue (hexDigit (b.toNat % 16))) = b) := by
  revert b
  refine forall_byte ?_
  decide +kernel

theorem unescaped_escapedByte (b : UInt8) (rest : List Char) :
    unescaped (escapedByte b ++ rest) = b :: unescaped rest := by
  rcases escapedByte_cases b with ⟨he, hne, hb⟩ | ⟨he, hb⟩
  · rw [he, List.singleton_append, unescaped, hb]
    intro _ _ _ hpercent
    exact absurd hpercent hne
  · simp only [he, List.cons_append, List.nil_append, unescaped, hb]

theorem unescaped_flatMap (bytes : List UInt8) : unescaped (bytes.flatMap escapedByte) = bytes := by
  induction bytes with
  | nil => rfl
  | cons b bytes ih => rw [List.flatMap_cons, unescaped_escapedByte, ih]

/-- An escaped text is the text of one string. -/
theorem escaped_injective {s t : String} (h : escaped s = escaped t) : s = t := by
  have hchars := congrArg (fun u : String => unescaped u.toList) h
  simp only [escaped, String.toList_ofList, unescaped_flatMap] at hchars
  exact utf8Encode_injective hchars

theorem slash_not_mem_escaped (s : String) : '/' ∉ (escaped s).toList := by
  have hbyte : ∀ b, '/' ∉ escapedByte b := by
    refine forall_byte ?_
    decide +kernel
  rw [escaped, String.toList_ofList]
  intro hmem
  obtain ⟨b, -, hb⟩ := List.mem_flatMap.mp hmem
  exact hbyte b hb

/-- The parts of a path are read back from it. -/
theorem splitOn_path {parts : List String} (hparts : parts ≠ []) :
    (path parts).toList.splitOn '/' = parts.map fun part => (escaped part).toList := by
  have htext : (path parts).toList = ['/'].intercalate (parts.map fun part => (escaped part).toList) := by
    rw [path, String.toList_intercalate, List.map_map]
    rfl
  rw [htext]
  refine List.splitOn_intercalate '/' ?_ (by simpa using hparts)
  intro l hl
  obtain ⟨part, -, rfl⟩ := List.mem_map.mp hl
  exact slash_not_mem_escaped part

theorem path_injective {parts parts' : List String} (hparts : parts ≠ []) (hparts' : parts' ≠ [])
    (h : path parts = path parts') : parts = parts' := by
  have hsplit : parts.map (fun part => (escaped part).toList) = parts'.map fun part => (escaped part).toList := by
    rw [← splitOn_path hparts, ← splitOn_path hparts', h]
  refine List.map_injective_iff.mpr (fun s t hst => ?_) hsplit
  exact escaped_injective (String.toList_inj.mp hst)

end Readback

section Facts

/-- The frames that carry the fact of a lifecycle operation. -/
inductive FactKind where
  | deleting
  | stopped
  | deleted
deriving DecidableEq

/-- A lifecycle operation's fact as its frame carries it. An occurrence is a minted id. -/
structure Fact where
  op : LifecycleOp
  forwardedBy : Option String
  publisher : PublisherId
  topologyVersion : Nat
  minted : ∀ occurrence, op.operation.occurrence = some occurrence → canonical occurrence = true

def FactKind.frame (kind : FactKind) (fact : Fact) : Frame :=
  match kind with
  | .deleting => .nodeDeleting fact.op fact.forwardedBy fact.publisher fact.topologyVersion
  | .stopped => .nodeStopped fact.op fact.forwardedBy fact.publisher fact.topologyVersion
  | .deleted => .nodeDeleted fact.op fact.forwardedBy

/-- Who authored an event, at which revision and when. -/
structure Authorship where
  author : Birth
  primaryRevision : Nat
  nowMs : Nat
  trace : Trace

/-- The id of a fact's event. -/
def Authorship.idOf (w : Authorship) (kind : FactKind) (fact : Fact) : String :=
  (Context.authored (kind.frame fact) w.author w.primaryRevision w.nowMs w.trace).id

theorem idOf_eq (w : Authorship) (kind : FactKind) (fact : Fact) :
    w.idOf kind fact = (kind.frame fact).type ++ "/" ++ path (operation fact.op) := by
  cases kind
  all_goals rfl

theorem type_frame (kind : FactKind) (a b : Fact) : (kind.frame a).type = (kind.frame b).type := by
  cases kind
  all_goals rfl

theorem operation_ne_nil (op : LifecycleOp) : operation op ≠ [] := List.cons_ne_nil _ _

theorem operation_eq (op : LifecycleOp) : operation op =
    [op.buildId, op.operation.action, (op.operation.step.map toString).getD "", op.operation.occurrence.getD "",
      op.mesh, op.nodeId, op.incarnation] := by
  unfold operation
  cases op.operation
  rfl

theorem step_text_injective {a b : Option Nat} (h : (a.map toString).getD "" = (b.map toString).getD "") : a = b := by
  have hne : ∀ n : Nat, toString n ≠ "" := by
    intro n hempty
    have hpos := Nat.length_toDigits_pos (b := 10) (n := n)
    have hlen := congrArg String.length hempty
    rw [Nat.toString_eq_repr, Nat.repr, String.length_ofList] at hlen
    rw [hlen] at hpos
    exact absurd hpos (by decide)
  cases a with
  | none =>
    cases b with
    | none => rfl
    | some n => exact absurd h.symm (hne n)
  | some m =>
    cases b with
    | none => exact absurd h (hne m)
    | some n => rw [toString_inj h]

theorem occurrence_text_injective {a b : Option String} (ha : ∀ o, a = some o → canonical o = true)
    (hb : ∀ o, b = some o → canonical o = true) (h : a.getD "" = b.getD "") : a = b := by
  have hempty : canonical "" = false := by decide
  cases a with
  | none =>
    cases b with
    | none => rfl
    | some o =>
      have hcanonical := hb o rfl
      rw [← show "" = o from h, hempty] at hcanonical
      cases hcanonical
  | some o =>
    cases b with
    | none =>
      have hcanonical := ha o rfl
      rw [show o = "" from h, hempty] at hcanonical
      cases hcanonical
    | some o' => rw [show o = o' from h]

/-- What two facts' ids agree on when they are equal: everything the identity has but the operation's
subject, and the mesh. -/
theorem idOf_eq_iff (w w' : Authorship) (kind : FactKind) (a b : Fact) :
    w.idOf kind a = w'.idOf kind b ↔
      a.op.buildId = b.op.buildId ∧ a.op.operation.action = b.op.operation.action ∧
        a.op.operation.step = b.op.operation.step ∧ a.op.operation.occurrence = b.op.operation.occurrence ∧
        a.op.mesh = b.op.mesh ∧ a.op.nodeId = b.op.nodeId ∧ a.op.incarnation = b.op.incarnation := by
  rw [idOf_eq, idOf_eq, type_frame kind a b]
  constructor
  · intro h
    have hpath := path_injective (operation_ne_nil _) (operation_ne_nil _) ((String.append_right_inj _).mp h)
    rw [operation_eq, operation_eq] at hpath
    simp only [List.cons.injEq, and_true] at hpath
    obtain ⟨hbuild, haction, hstep, hoccurrence, hmesh, hnode, hincarnation⟩ := hpath
    exact ⟨hbuild, haction, step_text_injective hstep, occurrence_text_injective a.minted b.minted hoccurrence, hmesh,
      hnode, hincarnation⟩
  · rintro ⟨hbuild, haction, hstep, hoccurrence, hmesh, hnode, hincarnation⟩
    rw [operation_eq, operation_eq, hbuild, haction, hstep, hoccurrence, hmesh, hnode, hincarnation]

/-- The two facts agree on the build, the operation's action, step and occurrence, and the exact birth. -/
def Fact.Alike (a b : Fact) : Prop :=
  a.op.buildId = b.op.buildId ∧ a.op.operation.action = b.op.operation.action ∧
    a.op.operation.step = b.op.operation.step ∧ a.op.operation.occurrence = b.op.operation.occurrence ∧
    a.op.nodeId = b.op.nodeId ∧ a.op.incarnation = b.op.incarnation

theorem idOf_eq_iff_alike (w w' : Authorship) (kind : FactKind) (a b : Fact) :
    w.idOf kind a = w'.idOf kind b ↔ a.Alike b ∧ a.op.mesh = b.op.mesh := by
  rw [idOf_eq_iff, Fact.Alike]
  tauto

theorem identity_eq_iff_alike (a b : Fact) :
    a.op.identity = b.op.identity ↔ a.Alike b ∧ a.op.operation.subject = b.op.operation.subject := by
  rw [LifecycleOp.identity_eq_iff, OperationId.eq_iff, Fact.Alike]
  tauto

/-- Two facts' ids are equal just when their operations' identities are, if and only if facts that
agree on the rest agree on the mesh just when they agree on the operation's subject. -/
theorem ids_tell_operations_iff (kind : FactKind) (a b : Fact) (w w' : Authorship) :
    (w.idOf kind a = w'.idOf kind b ↔ a.op.identity = b.op.identity) ↔
      (a.Alike b → (a.op.mesh = b.op.mesh ↔ a.op.operation.subject = b.op.operation.subject)) := by
  rw [idOf_eq_iff_alike, identity_eq_iff_alike]
  tauto

/-- A node's delete as its fact, of a subject. -/
def deletingFact (subject : OperationSubject) : Fact where
  op :=
    { type := "node", buildId := "7kq2m9vx4pzr", operation := .mk "node.delete" (some subject) (some 1) none
      nodeId := "000000000001", incarnation := "000000000002", path := "m.node", name := "1", mesh := "m"
      eventAtRafkaMs := 1, traceparent := none, tracestate := none }
  forwardedBy := none
  publisher := ⟨"000000000003", "000000000004"⟩
  topologyVersion := 1
  minted := fun _ h => by cases h

def primaryAuthorship : Authorship where
  author := ⟨"000000000005", "000000000003", "000000000004"⟩
  primaryRevision := 1
  nowMs := 1
  trace := ⟨none, none⟩

/-- The node and its exact birth are two subjects, and one id. -/
theorem subjects_share_id : ¬ ∀ (kind : FactKind) (a b : Fact) (w w' : Authorship),
    w.idOf kind a = w'.idOf kind b ↔ a.op.identity = b.op.identity := by
  intro h
  have hid := h .deleting (deletingFact (.node "000000000001"))
    (deletingFact (.birth "000000000001" "000000000002")) primaryAuthorship primaryAuthorship
  have hsame : primaryAuthorship.idOf .deleting (deletingFact (.node "000000000001")) =
      primaryAuthorship.idOf .deleting (deletingFact (.birth "000000000001" "000000000002")) := rfl
  exact absurd (hid.mp hsame) (by decide)

end Facts

end DistributedMesh.Gossip
