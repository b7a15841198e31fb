import DistributedMesh.GossipFrames
import DistributedMesh.Registers
import Mathlib.Data.Prod.Lex
import Mathlib.Data.String.Basic

namespace DistributedMesh.Gossip

open Std (ExtTreeMap)
open KeyedMaps Registers

/-- What a status is the status of. -/
inductive StatusSubject where
  | node (op : LifecycleOp)
  | mesh (name : String)
  | fabric (id : String)
deriving DecidableEq

/-- How a status is ordered against the one held. -/
inductive StatusOrder where
  | topologyVersion (publisher : PublisherId) (topologyVersion : Nat)
  | once
  | changed (publisher : String) (changedAtRafkaMs : Nat)
deriving DecidableEq

structure Status where
  subject : StatusSubject
  status : String
  order : StatusOrder
  forwardedBy : Option String
deriving DecidableEq

/-- The status a frame carries, when it is one of the five status frames. -/
def Status.of : Frame → Option Status
  | .nodeStopped op forwardedBy publisher version =>
    some ⟨.node op, "stopped", .topologyVersion publisher version, forwardedBy⟩
  | .nodeDeleting op forwardedBy publisher version =>
    some ⟨.node op, "deleting", .topologyVersion publisher version, forwardedBy⟩
  | .nodeDeleted op forwardedBy => some ⟨.node op, "deleted", .once, forwardedBy⟩
  | .meshStatus mesh status publisher forwardedBy changedAt =>
    some ⟨.mesh mesh, status, .changed publisher changedAt, forwardedBy⟩
  | .fabricStatus fabric status publisher forwardedBy changedAt =>
    some ⟨.fabric fabric, status, .changed publisher changedAt, forwardedBy⟩
  | _ => none

structure HeldStatus where
  status : String
  publisher : String
  changedAtRafkaMs : Nat
  context : Option Context
deriving DecidableEq

/-- The committed revision and the time of the change a status is held at. -/
def HeldStatus.rank (h : HeldStatus) : ℕ ×ₗ ℕ :=
  toLex ((h.context.bind Context.primaryRevision).getD 0, h.changedAtRafkaMs)

/-- The statuses a node holds, each until the next change. -/
structure StatusView where
  meshes : ExtTreeMap String HeldStatus
  fabric : Option HeldStatus

/-- Compare composite sequences across authors; none leaves it to the change times of one author. -/
def admitStatusContext (held offered : Option Context) : Option Bool := do
  let held ← held
  let offered ← offered
  let h ← held.sequence
  let o ← offered.sequence
  if held.source = offered.source ∧ held.primaryRevision = offered.primaryRevision then none
  else if o < h then some false
  else some (decide (h < o))

/-- Compare change times: an older one is refused, and one of the same publisher and time. -/
def admitStatus (held : Option HeldStatus) (publisher : String) (revision : Nat) : Bool :=
  match held with
  | none => true
  | some h => !decide (revision < h.changedAtRafkaMs) && !(publisher == h.publisher && revision == h.changedAtRafkaMs)

/-- Whether what is offered replaces what is held. -/
def admitsStatus (held : Option HeldStatus) (offered : HeldStatus) : Bool :=
  (admitStatusContext (held.bind HeldStatus.context) offered.context).getD
    (admitStatus held offered.publisher offered.changedAtRafkaMs)

namespace StatusView

def empty : StatusView := ⟨∅, none⟩

/-- The same fact under its author's context replaces one held without any. -/
def authorsHeld (held : Option HeldStatus) (offered : HeldStatus) : Bool :=
  offered.context.isSome && held.any fun h =>
    h.context.isNone && h.status == offered.status && h.changedAtRafkaMs == offered.changedAtRafkaMs

/-- Hold what a frame carries if it is newer than what is held; whether it was taken. -/
def take (v : StatusView) (f : Carried) (fabric : String) : StatusView × Bool :=
  match Status.of f.data with
  | some ⟨.mesh mesh, status, .changed publisher changedAt, _⟩ =>
    let offered : HeldStatus := ⟨status, publisher, changedAt, f.context⟩
    if authorsHeld v.meshes[mesh]? offered || admitsStatus v.meshes[mesh]? offered then
      ({ v with meshes := v.meshes.insert mesh offered }, true)
    else (v, false)
  | some ⟨.fabric id, status, .changed publisher changedAt, _⟩ =>
    let offered : HeldStatus := ⟨status, publisher, changedAt, f.context⟩
    if id = fabric ∧ admitsStatus v.fabric offered then ({ v with fabric := some offered }, true) else (v, false)
  | _ => (v, false)

end StatusView

/-- Which status a publisher authors. -/
inductive StatusScope where
  | mesh (name : String)
  | fabric (id : String)
deriving DecidableEq

def StatusScope.frame (scope : StatusScope) (status publisher : String) (forwardedBy : Option String)
    (changedAt : Nat) : Frame :=
  match scope with
  | .mesh name => .meshStatus name status publisher forwardedBy changedAt
  | .fabric id => .fabricStatus id status publisher forwardedBy changedAt

/-- The status a view holds of a subject. -/
def StatusView.held (v : StatusView) : StatusScope → Option HeldStatus
  | .mesh mesh => v.meshes[mesh]?
  | .fabric _ => v.fabric

/-- A status event of a subject as its author sends it. -/
structure AuthoredStatus where
  author : Birth
  revision : UInt64
  changedAt : UInt64
  status : String
  publisher : String
  forwardedBy : Option String
  trace : Trace
deriving DecidableEq

namespace AuthoredStatus

variable {a b : AuthoredStatus} {scope : StatusScope}

def data (a : AuthoredStatus) (scope : StatusScope) : Frame :=
  scope.frame a.status a.publisher a.forwardedBy a.changedAt.toNat

def context (a : AuthoredStatus) (scope : StatusScope) : Context :=
  Context.authored (a.data scope) a.author a.revision.toNat a.changedAt.toNat a.trace

/-- The frame that reaches a view. -/
def carried (a : AuthoredStatus) (scope : StatusScope) : Carried := ⟨some (a.context scope), a.data scope⟩

def held (a : AuthoredStatus) (scope : StatusScope) : HeldStatus :=
  ⟨a.status, a.publisher, a.changedAt.toNat, some (a.context scope)⟩

/-- The order of a subject's events: the committed revision, then the time of the change. -/
def rank (a : AuthoredStatus) : ℕ ×ₗ ℕ := toLex (a.revision.toNat, a.changedAt.toNat)

theorem rank_lt_iff : a.rank < b.rank ↔
    a.revision.toNat < b.revision.toNat ∨
      (a.revision.toNat = b.revision.toNat ∧ a.changedAt.toNat < b.changedAt.toNat) := by
  unfold rank
  rw [Prod.Lex.toLex_lt_toLex]

theorem rank_eq_iff : a.rank = b.rank ↔
    a.revision.toNat = b.revision.toNat ∧ a.changedAt.toNat = b.changedAt.toNat := by
  unfold rank
  rw [toLex_inj, Prod.mk.injEq]

theorem context_source (a : AuthoredStatus) (scope : StatusScope) : (a.context scope).source = a.author := by
  cases scope <;> rfl

theorem context_sequence (a : AuthoredStatus) (scope : StatusScope) :
    (a.context scope).sequence = some (p a.revision.toNat ++ "." ++ p a.changedAt.toNat) := by
  cases scope <;> rfl

end AuthoredStatus

section Sequences

variable {r t r' t' : Nat}

theorem toList_sequence (r t : Nat) :
    (p r ++ "." ++ p t).toList = Decimals.padded 20 r ++ '.' :: Decimals.padded 20 t := by
  simp [p]

/-- Status sequences are ordered as the revision and the time they are made of. -/
theorem sequence_lt_iff (hr : r < 2 ^ 64) (ht : t < 2 ^ 64) (hr' : r' < 2 ^ 64) (ht' : t' < 2 ^ 64) :
    p r ++ "." ++ p t < p r' ++ "." ++ p t' ↔ r < r' ∨ (r = r' ∧ t < t') := by
  have hlen : ∀ n < 2 ^ 64, (Decimals.padded 20 n).length = 20 := fun n hn =>
    Decimals.length_padded (by decide) (by omega)
  rw [String.lt_iff, toList_sequence, toList_sequence,
    Decimals.append_lt_append_iff ((hlen r hr).trans (hlen r' hr').symm),
    Decimals.padded_lt_iff (by decide) (by omega) (by omega), List.cons_lt_cons_iff,
    Decimals.padded_lt_iff (by decide) (by omega) (by omega)]
  simp only [lt_irrefl, true_and, false_or]
  refine or_congr_right (and_congr_left fun _ => ⟨Decimals.padded_inj, fun h => by rw [h]⟩)

theorem splitOnce_sequence (r t : Nat) : splitOnce '.' (p r ++ "." ++ p t) = some (p r, p t) := by
  have hne : ∀ c ∈ Decimals.padded 20 r, (decide (c ≠ '.')) = true := by
    intro c hc
    rw [decide_eq_true_eq]
    intro hdot
    have hdigit := Decimals.isDigit_padded 20 r c hc
    rw [hdot] at hdigit
    exact absurd hdigit (by decide)
  unfold splitOnce
  rw [toList_sequence, if_pos (by simp), List.takeWhile_append_of_pos hne, List.dropWhile_append_of_pos hne]
  simp [p]

end Sequences

namespace AuthoredStatus

variable {a b h m : AuthoredStatus} {scope : StatusScope} {fabric : String} {xs ys : List AuthoredStatus}

theorem context_revision (a : AuthoredStatus) (scope : StatusScope) :
    (a.context scope).primaryRevision = some a.revision.toNat := by
  simp only [Context.primaryRevision, context_sequence, Option.bind_eq_bind, Option.bind_some, splitOnce_sequence,
    scalar_p a.revision.toNat_lt]

theorem held_rank (a : AuthoredStatus) (scope : StatusScope) : (a.held scope).rank = a.rank := by
  simp [HeldStatus.rank, held, context_revision, rank]

/-- A subject's event after another is offered: a later one is held, or one of the same author at the same
place under another publisher's name. -/
def offer (held : Option AuthoredStatus) (a : AuthoredStatus) : Option AuthoredStatus :=
  match held with
  | none => some a
  | some h =>
    if h.rank < a.rank ∨ (h.rank = a.rank ∧ h.author = a.author ∧ h.publisher ≠ a.publisher) then some a else some h

theorem offer_offered (held : Option AuthoredStatus) (a : AuthoredStatus) : Offered rank held a (offer held a) := by
  cases held with
  | none => exact .taken (by simp)
  | some h =>
    simp only [offer]
    split
    next htaken =>
      refine .taken fun b hb => ?_
      cases hb
      rcases htaken with hlt | ⟨heq, -⟩
      · exact hlt.le
      · exact heq.le
    next hkept =>
      refine .kept (not_lt.mp fun hlt => hkept (Or.inl hlt))

/-- Two classifiers share the decision, and agree with the one order. -/
theorem admitsStatus_held (h a : AuthoredStatus) (scope : StatusScope) :
    admitsStatus (some (h.held scope)) (a.held scope) = true ↔
      h.rank < a.rank ∨ (h.rank = a.rank ∧ h.author = a.author ∧ h.publisher ≠ a.publisher) := by
  have hsequence := @sequence_lt_iff
  have hh := h.revision.toNat_lt
  have ha := a.revision.toNat_lt
  have hh' := h.changedAt.toNat_lt
  have ha' := a.changedAt.toNat_lt
  simp only [admitsStatus, admitStatusContext, held, Option.bind_some, Option.bind_eq_bind, context_sequence,
    context_source, context_revision, hsequence hh hh' ha ha', hsequence ha ha' hh hh', rank_lt_iff, rank_eq_iff]
  by_cases hsame : h.author = a.author ∧ some h.revision.toNat = some a.revision.toNat
  · obtain ⟨hauthor, hrevision⟩ := hsame
    rw [Option.some.injEq] at hrevision
    simp only [hauthor, hrevision, and_self, if_true, Option.getD_none, admitStatus, Bool.and_eq_true,
      Bool.not_eq_true', decide_eq_false_iff_not, Bool.and_eq_false_iff, beq_eq_false_iff_ne, true_and, lt_irrefl,
      false_or, ne_eq]
    constructor
    · rintro ⟨hle, hpublisher | htime⟩
      · rcases Nat.lt_or_ge h.changedAt.toNat a.changedAt.toNat with hlt | hge
        · exact Or.inl hlt
        · exact Or.inr ⟨by omega, Ne.symm hpublisher⟩
      · exact Or.inl (by omega)
    · rintro (hlt | ⟨htime, hpublisher⟩)
      · exact ⟨by omega, Or.inr (by omega)⟩
      · exact ⟨by omega, Or.inl (Ne.symm hpublisher)⟩
  · rw [if_neg hsame]
    have hother : ¬ ((h.revision.toNat = a.revision.toNat ∧ h.changedAt.toNat = a.changedAt.toNat) ∧
        h.author = a.author ∧ h.publisher ≠ a.publisher) := by
      rintro ⟨⟨hrevision, -⟩, hauthor, -⟩
      exact hsame ⟨hauthor, congrArg some hrevision⟩
    rw [or_iff_left hother]
    split
    next hlt =>
      simp only [Option.getD_some, Bool.false_eq_true, false_iff]
      omega
    next => simp only [Option.getD_some, decide_eq_true_eq]

theorem authorsHeld_held (held : Option AuthoredStatus) (a : AuthoredStatus) (scope : StatusScope) :
    StatusView.authorsHeld (held.map fun h => h.held scope) (a.held scope) = false := by
  cases held with
  | none => rfl
  | some h => simp [StatusView.authorsHeld, AuthoredStatus.held]

theorem held_take {v : StatusView} {held : Option AuthoredStatus} (hfabric : ∀ id, scope = .fabric id → fabric = id)
    (hv : v.held scope = held.map fun h => h.held scope) (a : AuthoredStatus) :
    (v.take (a.carried scope) fabric).1.held scope = (offer held a).map fun h => h.held scope := by
  have hadmits : (admitsStatus (v.held scope) (a.held scope) = true ∧ offer held a = some a) ∨
      (admitsStatus (v.held scope) (a.held scope) = false ∧ offer held a = held) := by
    rw [hv]
    cases held with
    | none => exact Or.inl ⟨rfl, rfl⟩
    | some h =>
      simp only [Option.map_some, offer]
      split
      next htaken => exact Or.inl ⟨(admitsStatus_held h a scope).mpr htaken, rfl⟩
      next hkept => exact Or.inr ⟨Bool.eq_false_iff.mpr fun h' => hkept ((admitsStatus_held h a scope).mp h'), rfl⟩
  have hauthors := authorsHeld_held held a scope
  rw [← hv] at hauthors
  cases scope with
  | mesh name =>
    have htake : v.take (a.carried (.mesh name)) fabric =
        if admitsStatus (v.held (.mesh name)) (a.held (.mesh name)) then
          ({ v with meshes := v.meshes.insert name (a.held (.mesh name)) }, true) else (v, false) := by
      have hdef : v.take (a.carried (.mesh name)) fabric =
          if (StatusView.authorsHeld (v.held (.mesh name)) (a.held (.mesh name)) ||
              admitsStatus (v.held (.mesh name)) (a.held (.mesh name))) = true then
            ({ v with meshes := v.meshes.insert name (a.held (.mesh name)) }, true) else (v, false) := rfl
      rw [hdef, hauthors, Bool.false_or]
    rw [htake]
    rcases hadmits with ⟨hyes, hoffer⟩ | ⟨hno, hoffer⟩
    · rw [hyes, hoffer, if_pos rfl]
      simp [StatusView.held]
    · rw [hno, hoffer, if_neg (by simp), hv]
  | fabric id =>
    have hid : fabric = id := hfabric id rfl
    have htake : v.take (a.carried (.fabric id)) fabric =
        if id = fabric ∧ admitsStatus (v.held (.fabric id)) (a.held (.fabric id)) = true then
          ({ v with fabric := some (a.held (.fabric id)) }, true) else (v, false) := rfl
    rw [htake]
    rcases hadmits with ⟨hyes, hoffer⟩ | ⟨hno, hoffer⟩
    · rw [hyes, hoffer, if_pos ⟨hid.symm, rfl⟩]
      rfl
    · rw [hno, hoffer, if_neg (by simp), hv]

end AuthoredStatus

namespace StatusView

open AuthoredStatus

variable {scope : StatusScope} {fabric : String} {xs ys : List AuthoredStatus}

/-- The view after the events of a subject reached it. -/
def takeAll (v : StatusView) (fabric : String) (scope : StatusScope) (xs : List AuthoredStatus) : StatusView :=
  xs.foldl (fun v a => (v.take (a.carried scope) fabric).1) v

theorem held_takeAll {v : StatusView} {held : Option AuthoredStatus} (hfabric : ∀ id, scope = .fabric id → fabric = id)
    (hv : v.held scope = held.map fun h => h.held scope) (xs : List AuthoredStatus) :
    (v.takeAll fabric scope xs).held scope = (xs.foldl offer held).map fun h => h.held scope := by
  induction xs generalizing v held with
  | nil => exact hv
  | cons a xs ih => exact ih (held_take hfabric hv a)

theorem held_takeAll_empty (hfabric : ∀ id, scope = .fabric id → fabric = id) (xs : List AuthoredStatus) :
    (empty.takeAll fabric scope xs).held scope = (xs.foldl offer none).map fun h => h.held scope := by
  refine held_takeAll hfabric ?_ xs
  cases scope <;> simp [StatusView.held, empty]

/-- A subject's statuses converge: a view ends with one of the latest of its events and never goes back, and
views given the same events agree where the latest of them carry one status. -/
theorem statuses_converge (hfabric : ∀ id, scope = .fabric id → fabric = id) (xs : List AuthoredStatus) :
    (xs ≠ [] → ∃ m : AuthoredStatus, (empty.takeAll fabric scope xs).held scope = some (m.held scope) ∧
      Latest AuthoredStatus.rank xs m) ∧
    (∀ before after h h', xs = before ++ after → (empty.takeAll fabric scope before).held scope = some h →
      (empty.takeAll fabric scope xs).held scope = some h' → h.rank ≤ h'.rank) ∧
    ∀ ys, (∀ a, a ∈ xs ↔ a ∈ ys) →
      (∀ a b, Latest AuthoredStatus.rank xs a → Latest AuthoredStatus.rank xs b → a.status = b.status) →
      ((empty.takeAll fabric scope xs).held scope).map HeldStatus.status =
        ((empty.takeAll fabric scope ys).held scope).map HeldStatus.status := by
  simp only [held_takeAll_empty hfabric]
  refine ⟨fun hne => ?_, ?_, ?_⟩
  · rcases foldl_none offer_offered xs with ⟨hnil, -⟩ | ⟨m, hm, hlatest⟩
    · exact absurd hnil hne
    · exact ⟨m, by rw [hm]; rfl, hlatest⟩
  · intro before after h h' hsplit hbefore hafter
    subst hsplit
    obtain ⟨a, ha, rfl⟩ := Option.map_eq_some_iff.mp hbefore
    obtain ⟨b, hb, hle⟩ := foldl_forward offer_offered after a
    rw [List.foldl_append, ha, hb, Option.map_some, Option.some.injEq] at hafter
    rw [← hafter, held_rank, held_rank]
    exact hle
  · intro ys hsame hone
    rcases foldl_none offer_offered xs with ⟨rfl, hx⟩ | ⟨m, hm, hlatest⟩
    · cases ys with
      | nil => rfl
      | cons y ys => exact absurd ((hsame y).mpr List.mem_cons_self) List.not_mem_nil
    · rcases foldl_none offer_offered ys with ⟨rfl, -⟩ | ⟨n, hn, hlatest'⟩
      · exact absurd ((hsame m).mp hlatest.mem) List.not_mem_nil
      · have hkey := hlatest.key_eq hlatest' hsame
        have hlast : Latest AuthoredStatus.rank xs n :=
          ⟨(hsame n).mpr hlatest'.mem, fun a ha => hkey ▸ hlatest.le a ha⟩
        rw [hm, hn]
        exact congrArg some (hone m n hlatest hlast)

/-- A ready mesh leaves, and the events of its primary arrive late and repeated. -/
def leavingLate : List AuthoredStatus :=
  [⟨⟨"f", "n1", "b1"⟩, 1, 9, "leaving", "a", none, ⟨none, none⟩⟩,
    ⟨⟨"f", "n1", "b1"⟩, 1, 5, "ready", "a", none, ⟨none, none⟩⟩,
    ⟨⟨"f", "n1", "b1"⟩, 1, 9, "leaving", "a", some "z", ⟨none, none⟩⟩]

theorem statuses_converge_leaving :
    ((empty.takeAll "f" (.mesh "m") leavingLate).held (.mesh "m")).map HeldStatus.status = some "leaving" ∧
      ((empty.takeAll "f" (.mesh "m") leavingLate.reverse).held (.mesh "m")).map HeldStatus.status =
        some "leaving" := by
  have hends : ((empty.takeAll "f" (.mesh "m") leavingLate).held (.mesh "m")).map HeldStatus.status =
      some "leaving" := by
    decide +kernel
  refine ⟨hends, ?_⟩
  have hlast : ∀ c ∈ leavingLate, (∀ x ∈ leavingLate, x.rank ≤ c.rank) → c.status = "leaving" := by decide
  have hconverges := @statuses_converge (.mesh "m") "f" (by simp) leavingLate
  refine (hconverges.2.2 leavingLate.reverse (by simp) fun a b ha hb => ?_).symm.trans hends
  rw [hlast a ha.mem ha.le, hlast b hb.mem hb.le]

/-- Events of one source at one revision and one time carry one status. -/
def OneStatusPerSource (xs : List AuthoredStatus) : Prop :=
  ∀ a ∈ xs, ∀ b ∈ xs, a.author = b.author → a.rank = b.rank → a.status = b.status

/-- Two births of one revision change the mesh's status at one time. -/
def bothAtOnce : List AuthoredStatus :=
  [⟨⟨"f", "n1", "b1"⟩, 1, 5, "ready", "a", none, ⟨none, none⟩⟩,
    ⟨⟨"f", "n2", "b2"⟩, 1, 5, "leaving", "b", none, ⟨none, none⟩⟩]

theorem statuses_depend_on_the_order :
    OneStatusPerSource bothAtOnce ∧
      ((empty.takeAll "f" (.mesh "m") bothAtOnce).held (.mesh "m")).map HeldStatus.status = some "ready" ∧
      ((empty.takeAll "f" (.mesh "m") bothAtOnce.reverse).held (.mesh "m")).map HeldStatus.status =
        some "leaving" := by
  refine ⟨?_, by decide +kernel, by decide +kernel⟩
  unfold OneStatusPerSource
  decide

end StatusView

end DistributedMesh.Gossip
