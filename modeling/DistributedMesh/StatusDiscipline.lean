import DistributedMesh.StatusPublishing
import Mathlib.Data.List.Chain

namespace DistributedMesh.Gossip

open GuardedRuns

/-- The fact a status frame carries. -/
def Carried.fact (f : Carried) : StatusFact :=
  match f.data with
  | .meshStatus _ status _ _ changedAt | .fabricStatus _ status _ _ changedAt => ⟨status, UInt64.ofNat changedAt⟩
  | _ => ⟨"", 0⟩

/-- What a view that took a status frame holds of its subject. -/
def Carried.heldStatus (f : Carried) : HeldStatus :=
  match f.data with
  | .meshStatus _ status publisher _ changedAt | .fabricStatus _ status publisher _ changedAt =>
    ⟨status, publisher, changedAt, f.context⟩
  | _ => ⟨"", "", 0, f.context⟩

/-- Every holder of one frame takes another. -/
def Takes (scope : StatusScope) (e e' : Carried) : Prop :=
  ∀ (v : StatusView) (fabric : String), (∀ id, scope = .fabric id → fabric = id) →
    v.held scope = some e.heldStatus → (v.take e' fabric).2 = true

/-- A publisher's frame of a fact: without a context, or authored. -/
inductive FrameOf (scope : StatusScope) (node : String) (fact : StatusFact) : Carried → Prop where
  | plain : FrameOf scope node fact ⟨none, scope.frame fact.status node none fact.changedAt.toNat⟩
  | authored (author : Birth) (revision : UInt64) (trace : Trace) :
      FrameOf scope node fact
        ((⟨author, revision, fact.changedAt, fact.status, node, none, trace⟩ : AuthoredStatus).carried scope)

section Frames

variable {scope : StatusScope} {node : String} {fact fact' : StatusFact} {e e' : Carried}

theorem FrameOf.fact_eq (h : FrameOf scope node fact e) : e.fact = fact := by
  cases h <;> cases scope <;> simp [Carried.fact, StatusScope.frame, AuthoredStatus.carried, AuthoredStatus.data]

/-- The committed revision a frame was authored under. -/
def Carried.revision (f : Carried) : Option Nat := f.context.bind Context.primaryRevision

theorem FrameOf.held_eq (h : FrameOf scope node fact e) :
    e.heldStatus = ⟨fact.status, node, fact.changedAt.toNat, e.context⟩ := by
  cases h <;> cases scope <;> rfl

theorem FrameOf.data_eq (h : FrameOf scope node fact e) :
    e.data = scope.frame fact.status node none fact.changedAt.toNat := by
  cases h <;> rfl

theorem take_of_admits {v : StatusView} {fabric : String} (hfabric : ∀ id, scope = .fabric id → fabric = id)
    (he : FrameOf scope node fact e) (hadmits : admitsStatus (v.held scope) e.heldStatus = true) :
    (v.take e fabric).2 = true := by
  rw [he.held_eq] at hadmits
  unfold StatusView.take
  rw [he.data_eq]
  cases scope with
  | mesh name =>
    have hyes : admitsStatus v.meshes[name]? ⟨fact.status, node, fact.changedAt.toNat, e.context⟩ = true := hadmits
    simp [StatusScope.frame, Status.of, hyes]
  | fabric id =>
    have hyes : admitsStatus v.fabric ⟨fact.status, node, fact.changedAt.toNat, e.context⟩ = true := hadmits
    simp [StatusScope.frame, Status.of, hyes, hfabric id rfl]

theorem admitStatus_later {h : HeldStatus} {publisher : String} {revision : Nat} (hlt : h.changedAtRafkaMs < revision) :
    admitStatus (some h) publisher revision = true := by
  have hne : ¬ revision = h.changedAtRafkaMs := by omega
  simp [admitStatus, Nat.le_of_lt hlt, hne]

/-- A holder takes a frame changed later and authored under no earlier revision. -/
theorem takes_of_later (he : FrameOf scope node fact e) (he' : FrameOf scope node fact' e')
    (hlater : fact.changedAt < fact'.changedAt)
    (hrevision : ∀ r r', e.revision = some r → e'.revision = some r' → r ≤ r') : Takes scope e e' := by
  intro v fabric hfabric hv
  refine take_of_admits hfabric he' ?_
  rw [hv]
  have hlt : fact.changedAt.toNat < fact'.changedAt.toNat := UInt64.lt_iff_toNat_lt.mp hlater
  have hplain : admitStatus (some e.heldStatus) node fact'.changedAt.toNat = true := by
    refine admitStatus_later ?_
    rw [he.held_eq]
    exact hlt
  rw [he'.held_eq]
  cases he' with
  | plain =>
    have hnone : admitStatusContext ((some e.heldStatus).bind HeldStatus.context) none = none := by
      cases (some e.heldStatus).bind HeldStatus.context <;> rfl
    rw [admitsStatus, hnone]
    exact hplain
  | authored author' revision' trace' =>
    cases he with
    | plain =>
      rw [admitsStatus, FrameOf.plain.held_eq]
      exact admitStatus_later hlt
    | authored author revision trace =>
      have hle := hrevision revision.toNat revision'.toNat (AuthoredStatus.context_revision _ scope)
        (AuthoredStatus.context_revision _ scope)
      have hheld := (AuthoredStatus.admitsStatus_held
        ⟨author, revision, fact.changedAt, fact.status, node, none, trace⟩
        ⟨author', revision', fact'.changedAt, fact'.status, node, none, trace'⟩ scope).mpr
      have hrank := hheld (Or.inl (AuthoredStatus.rank_lt_iff.mpr ?_))
      · rw [(FrameOf.authored author revision trace).held_eq]
        exact hrank
      · rcases Nat.lt_or_eq_of_le hle with hless | hsame
        · exact Or.inl hless
        · exact Or.inr ⟨hsame, hlt⟩

end Frames

/-- A publisher with what it sent: in the terms it ended, and in the one it is in. -/
structure Publishing where
  publisher : StatusPublisher
  ended : List (List Carried)
  term : List Carried

/-- The next frame of a term repeats the one before, or is changed later and taken by its holders. -/
def Next (scope : StatusScope) (e e' : Carried) : Prop :=
  e' = e ∨ (e.fact.changedAt < e'.fact.changedAt ∧ Takes scope e e')

/-- No fact of a term is sent more than five times in a row. -/
def Bounded (term : List Carried) : Prop :=
  ∀ before row after fact, term = before ++ row ++ after → (∀ e ∈ row, e.fact = fact) → row.length ≤ statusSends

/-- How many frames at the end of a term carry one fact. -/
def trailing (term : List Carried) (fact : StatusFact) : Nat :=
  (term.reverse.takeWhile fun e => e.fact = fact).length

section Rows

variable {term : List Carried} {e : Carried} {fact : StatusFact}

theorem trailing_append (term : List Carried) (e : Carried) (fact : StatusFact) :
    trailing (term ++ [e]) fact = if e.fact = fact then trailing term fact + 1 else 0 := by
  unfold trailing
  rw [List.reverse_append, List.reverse_singleton, List.singleton_append, List.takeWhile_cons]
  split
  next h => simp [of_decide_eq_true h]
  next h => simp [of_decide_eq_false (Bool.eq_false_iff.mpr h)]

theorem trailing_of_last (h : ∀ d, term.getLast? = some d → d.fact ≠ fact) : trailing term fact = 0 := by
  unfold trailing
  rw [← List.head?_reverse] at h
  cases hrev : term.reverse with
  | nil => rfl
  | cons d rest =>
    have hne := h d (by rw [hrev]; rfl)
    simp [hne]

theorem length_le_trailing {before row : List Carried} (h : ∀ e ∈ row, e.fact = fact) :
    row.length ≤ trailing (before ++ row) fact := by
  unfold trailing
  rw [List.reverse_append, List.takeWhile_append_of_pos (by simpa using h)]
  simp

theorem Bounded.append (h : Bounded term) (hlast : trailing (term ++ [e]) e.fact ≤ statusSends) :
    Bounded (term ++ [e]) := by
  intro before row after fact hsplit hrow
  rcases List.eq_nil_or_concat after with rfl | ⟨after', d, rfl⟩
  · rw [List.append_nil] at hsplit
    have hlen := @length_le_trailing fact before row hrow
    rw [← hsplit, trailing_append] at hlen
    split at hlen
    next heq =>
      rw [trailing_append, if_pos rfl, heq] at hlast
      omega
    next => exact hlen.trans (Nat.zero_le _)
  · rw [List.concat_eq_append, ← List.append_assoc] at hsplit
    have hfront := (List.append_inj' hsplit rfl).1
    exact h before row after' fact hfront hrow

end Rows

namespace Publishing

def start (node : String) (scope : StatusScope) : Publishing := ⟨.new node scope, [], []⟩

/-- A call, and what it sent; a term ends with the role. -/
def step (t : Publishing) (call : PublisherCall) : Publishing :=
  let out := t.publisher.call call
  if t.publisher.role && !out.1.role then ⟨out.1, t.ended ++ [t.term], []⟩
  else ⟨out.1, t.ended, t.term ++ out.2.toList⟩

/-- Every frame sent, in order. -/
def all (t : Publishing) : List Carried := t.ended.flatten ++ t.term

/-- An instant is past the last frame's of the term. -/
def After (t : Publishing) (instant : UInt64) : Prop :=
  t.term.getLast?.all (fun e => decide (e.fact.changedAt < instant)) = true

/-- A state of the mesh is below none that was sent. -/
def NotBelow (t : Publishing) (status : String) : Prop :=
  t.all.all (fun e => !rankBelow (meshStateRank status) (meshStateRank e.fact.status)) = true

/-- The author named has no earlier revision than the last frame of the term. -/
def AuthorOk (t : Publishing) : Prop :=
  t.term.getLast?.all (fun e => e.revision.all fun r => t.publisher.author.all fun a => decide (r ≤ a.2.toNat)) = true

/-- A fact that is adopted is past what the term sent, and below no state sent. -/
def AdoptOk (t : Publishing) (fact : StatusFact) : Prop :=
  t.publisher.adopts fact = true → t.After fact.changedAt ∧
    match t.publisher.scope with
    | .mesh _ => t.NotBelow fact.status
    | .fabric _ => True

/-- A first state is not stamped zero, and a state to be followed is not stamped at the last instant. -/
def HeldOk (p : StatusPublisher) (status : String) (nowMs : UInt64) : Prop :=
  p.schedule.held.all (fun held =>
    (held.changedAt != 0 || nowMs != 0) && (!isForward held.status status || held.changedAt + 1 != 0)) = true

/-- What a mesh's publisher observes at. -/
def MeshOk (t : Publishing) (status : String) (heard : Option StatusFact) (nowMs : UInt64) : Prop :=
  match t.publisher.hears heard with
  | some h =>
    if h.changedAt = 0 ∧ t.publisher.schedule.held.isNone then
      h.status = "pending" → nowMs ≠ 0 ∧ t.NotBelow "pending"
    else t.AdoptOk h ∧ HeldOk (t.publisher.adopt h).1 status nowMs
  | none => HeldOk t.publisher status nowMs

/-- A fabric's publisher observes a change only past what the term sent. -/
def FabricOk (t : Publishing) (status : String) (nowMs : UInt64) : Prop :=
  t.publisher.schedule.held.any (fun h => h.status == status) = false → t.After nowMs

/-- What is due is sent under the context the fact was first sent under. -/
def DueOk (t : Publishing) : Prop :=
  t.publisher.author = none ∨ (t.publisher.context.any fun c => t.publisher.schedule.held == some c.1) = true

/-- The publisher holds the status observed and does not wait to send it. -/
def Settled (t : Publishing) (status : String) : Prop :=
  t.publisher.schedule.awaitingChecklist = false ∧ t.publisher.schedule.held.any (fun h => h.status == status) = true

def StepOk (t : Publishing) : PublisherCall → Prop
  | .setRole _ | .setAuthor _ => True
  | .adopt fact => t.AdoptOk fact
  | .observe status heard _ _ nowMs _ =>
    t.publisher.role = true → ¬ t.Settled status → t.AuthorOk ∧
      match t.publisher.scope with
      | .mesh _ => t.MeshOk status heard nowMs
      | .fabric _ => t.FabricOk status nowMs
  | .due now _ =>
    t.publisher.role = true → t.publisher.schedule.nextAt.any (fun instant => decide (instant ≤ now)) = true → t.DueOk

/-- The fact held is the one last sent, under the context it was sent under. -/
structure Live (t : Publishing) (e : Carried) : Prop where
  waits : t.publisher.schedule.awaitingChecklist = false
  held : t.publisher.schedule.held = some e.fact
  row : trailing t.term e.fact = t.publisher.schedule.sent
  sent : t.publisher.schedule.sent ≤ statusSends
  more : t.publisher.schedule.nextAt.isSome = true → t.publisher.schedule.sent < statusSends
  context : (t.publisher.context.filter fun c => c.1 == e.fact) = e.context.map fun c => (e.fact, c)

/-- The fact held was adopted after the one last sent. -/
structure Waiting (t : Publishing) (e : Carried) : Prop where
  waits : t.publisher.schedule.awaitingChecklist = true
  nextAt : t.publisher.schedule.nextAt = none
  held : ∃ f, t.publisher.schedule.held = some f ∧ e.fact.changedAt < f.changedAt

/-- A mesh's publisher holds a state of it, below none it sent, and what it sent never goes back. -/
structure MeshInv (t : Publishing) : Prop where
  known : ∀ f, t.publisher.schedule.held = some f → (meshStateRank f.status).isSome = true
  zero : ∀ f, t.publisher.schedule.held = some f → f.changedAt = 0 →
    f.status = "pending" ∧ t.publisher.schedule.awaitingChecklist = true
  below : ∀ f, t.publisher.schedule.held = some f → t.NotBelow f.status
  forward : t.all.Pairwise fun e e' => rankBelow (meshStateRank e'.fact.status) (meshStateRank e.fact.status) = false

structure Inv (t : Publishing) : Prop where
  ended : ∀ term ∈ t.ended, term.IsChain (Next t.publisher.scope) ∧ Bounded term
  chain : t.term.IsChain (Next t.publisher.scope)
  bounded : Bounded t.term
  frames : ∀ e ∈ t.term, FrameOf t.publisher.scope t.publisher.node e.fact e
  idle : t.publisher.role = false → t.term = []
  quiet : t.term = [] → t.publisher.context = none ∧ t.publisher.schedule.nextAt = none ∧
    (t.publisher.schedule.awaitingChecklist = false → t.publisher.schedule.held = none)
  linked : ∀ e, t.term.getLast? = some e → t.Live e ∨ t.Waiting e
  cached : ∀ c, t.publisher.context = some c → ∀ e, t.term.getLast? = some e → c.1.changedAt ≤ e.fact.changedAt
  mesh : ∀ name, t.publisher.scope = .mesh name → t.MeshInv

section Steps

variable {t : Publishing} {fact : StatusFact}

theorem After.lt {instant : UInt64} {e : Carried} (h : t.After instant) (he : t.term.getLast? = some e) :
    e.fact.changedAt < instant := by
  unfold After at h
  rw [he] at h
  simpa using h

theorem inv_start (node : String) (scope : StatusScope) : (start node scope).Inv where
  ended := by simp [start]
  chain := .nil
  bounded := by
    intro before row after fact hsplit hrow
    have hnil : before ++ row ++ after = [] := hsplit.symm
    simp only [List.append_eq_nil_iff] at hnil
    rw [hnil.1.2]
    exact Nat.zero_le _
  frames := by simp [start]
  idle := fun _ => rfl
  quiet := fun _ => ⟨rfl, rfl, fun _ => rfl⟩
  linked := by simp [start]
  cached := by simp [start, StatusPublisher.new]
  mesh := fun name _ =>
    { known := by simp [start, StatusPublisher.new, StatusReinforcement.reset]
      zero := by simp [start, StatusPublisher.new, StatusReinforcement.reset]
      below := by simp [start, StatusPublisher.new, StatusReinforcement.reset]
      forward := by simp [start, all] }

theorem Inv.adopted (h : t.Inv) (hafter : t.After fact.changedAt)
    (hmesh : ∀ name, t.publisher.scope = .mesh name → StatusPublisher.malformed fact = false ∧ t.NotBelow fact.status) :
    ({ t with publisher := { t.publisher with schedule := .adopt fact, context := none } } : Publishing).Inv where
  ended := h.ended
  chain := h.chain
  bounded := h.bounded
  frames := h.frames
  idle := h.idle
  quiet := fun _ => ⟨rfl, rfl, fun hwaits => by simp [StatusReinforcement.adopt] at hwaits⟩
  linked := fun e he => Or.inr ⟨rfl, rfl, fact, rfl, hafter.lt he⟩
  cached := by simp
  mesh := fun name hname => by
    obtain ⟨hformed, hbelow⟩ := hmesh name hname
    simp only [StatusPublisher.malformed, Bool.or_eq_false_iff, Bool.and_eq_false_iff, Option.isNone_eq_false_iff,
      beq_eq_false_iff_ne, bne_eq_false_iff_eq] at hformed
    have hheld : ∀ f, (StatusReinforcement.adopt fact).held = some f → f = fact := by
      intro f hf
      exact (Option.some.inj hf).symm
    refine ⟨?_, ?_, ?_, (h.mesh name hname).forward⟩
    · intro f hf
      rw [hheld f hf]
      exact hformed.1
    · intro f hf hzero
      rw [hheld f hf] at hzero ⊢
      rcases hformed.2 with hne | hpending
      · exact absurd hzero hne
      · exact ⟨hpending, rfl⟩
    · intro f hf
      rw [hheld f hf]
      exact hbelow

/-- What a publisher sent stands whatever its author and its role, while it has one. -/
theorem Inv.keeps (h : t.Inv) {q : StatusPublisher} (hscope : q.scope = t.publisher.scope)
    (hnode : q.node = t.publisher.node) (hcontext : q.context = t.publisher.context)
    (hschedule : q.schedule = t.publisher.schedule) (hidle : q.role = false → t.publisher.role = false) :
    ({ t with publisher := q } : Publishing).Inv := by
  obtain ⟨node, scope, author, context, role, schedule⟩ := q
  obtain ⟨⟨node', scope', author', context', role', schedule'⟩, ended, term⟩ := t
  dsimp only at hscope hnode hcontext hschedule hidle
  subst hscope hnode hcontext hschedule
  exact
    { ended := h.ended
      chain := h.chain
      bounded := h.bounded
      frames := h.frames
      idle := fun hrole => h.idle (hidle hrole)
      quiet := h.quiet
      linked := fun e he => (h.linked e he).imp
        (fun hlive => ⟨hlive.waits, hlive.held, hlive.row, hlive.sent, hlive.more, hlive.context⟩)
        (fun hwaiting => ⟨hwaiting.waits, hwaiting.nextAt, hwaiting.held⟩)
      cached := h.cached
      mesh := fun name hname =>
        have hmesh := h.mesh name hname
        ⟨hmesh.known, hmesh.zero, hmesh.below, hmesh.forward⟩ }

/-- The role is lost, and the term with it. -/
theorem Inv.lost (h : t.Inv) :
    (⟨{ t.publisher with schedule := .reset, author := none, context := none, role := false }, t.ended ++ [t.term], []⟩ :
      Publishing).Inv where
  ended := by
    intro term hterm
    rcases List.mem_append.mp hterm with hold | hnew
    · exact h.ended term hold
    · rw [List.mem_singleton.mp hnew]
      exact ⟨h.chain, h.bounded⟩
  chain := .nil
  bounded := (inv_start "" (.mesh "")).bounded
  frames := by simp
  idle := fun _ => rfl
  quiet := fun _ => ⟨rfl, rfl, fun _ => rfl⟩
  linked := by simp
  cached := by simp
  mesh := fun name hname => by
    refine ⟨by simp [StatusReinforcement.reset], by simp [StatusReinforcement.reset],
      by simp [StatusReinforcement.reset], ?_⟩
    have hforward := (h.mesh name hname).forward
    simpa [all] using hforward

end Steps

end Publishing

/-- What a publisher's frame of a fact is, when the fact was not sent before. -/
structure Framed (p : StatusPublisher) (fact : StatusFact) (q : StatusPublisher) (e : Carried) : Prop where
  frame : FrameOf p.scope p.node fact e
  scope : q.scope = p.scope
  node : q.node = p.node
  role : q.role = p.role
  schedule : q.schedule = p.schedule
  context : (q.context.filter fun c => c.1 == fact) = e.context.map fun c => (fact, c)
  cached : ∀ c, q.context = some c → p.context = some c ∨ c.1 = fact
  revision : ∀ r, e.revision = some r → ∃ a, p.author = some a ∧ r = a.2.toNat

theorem framed_of_uncached {p : StatusPublisher} {fact : StatusFact} (trace : Trace)
    (h : (p.context.filter fun c => c.1 == fact) = none) : Framed p fact (p.frame fact trace).1 (p.frame fact trace).2 := by
  unfold StatusPublisher.frame
  dsimp only
  rw [h]
  cases ha : p.author with
  | none => exact ⟨.plain, rfl, rfl, rfl, rfl, h, fun c hc => Or.inl hc, fun r hr => by simp [Carried.revision] at hr⟩
  | some a =>
    obtain ⟨author, revision⟩ := a
    refine ⟨.authored author revision trace, rfl, rfl, rfl, rfl, by simp, fun c hc => Or.inr ?_, fun r hr => ?_⟩
    · rw [← Option.some.inj hc]
    · have hrevision := AuthoredStatus.context_revision
        ⟨author, revision, fact.changedAt, fact.status, p.node, none, trace⟩ p.scope
      exact ⟨_, ha, Option.some.inj (hr.symm.trans hrevision)⟩

namespace Publishing

/-- A step's fact is sent, if there is one. -/
def sends (t : Publishing) (out : StatusReinforcement × Option StatusFact) (trace : Trace) : Publishing :=
  let sent := t.publisher.send out trace
  ⟨sent.1, t.ended, t.term ++ sent.2.toList⟩

section Sends

variable {t : Publishing} {fact : StatusFact} {s : StatusReinforcement}

theorem NotBelow.mem {status : String} {e : Carried} (h : t.NotBelow status) (he : e ∈ t.all) :
    rankBelow (meshStateRank status) (meshStateRank e.fact.status) = false := by
  unfold NotBelow at h
  simpa using List.all_eq_true.mp h e he

theorem AuthorOk.le {e : Carried} {r : Nat} {a : Birth × UInt64} (h : t.AuthorOk) (he : t.term.getLast? = some e)
    (hr : e.revision = some r) (ha : t.publisher.author = some a) : r ≤ a.2.toNat := by
  unfold AuthorOk at h
  rw [he, ha] at h
  simpa [hr] using h

theorem rankBelow_irrefl (a : Option Nat) : rankBelow a a = false := by
  cases a <;> simp [rankBelow]

theorem Inv.uncached (h : t.Inv) (hafter : t.After fact.changedAt) :
    (t.publisher.context.filter fun c => c.1 == fact) = none := by
  rw [Option.filter_eq_none_iff]
  intro c hc heq
  rw [beq_iff_eq] at heq
  cases hlast : t.term.getLast? with
  | none =>
    have hnil := List.getLast?_eq_none_iff.mp hlast
    rw [(h.quiet hnil).1] at hc
    cases hc
  | some e =>
    have hle := h.cached c hc e hlast
    have hlt := hafter.lt hlast
    rw [heq, UInt64.le_iff_toNat_le] at hle
    rw [UInt64.lt_iff_toNat_lt] at hlt
    omega

theorem MeshInv.sent {q : StatusPublisher} {e : Carried} (h : t.MeshInv) (hheld : q.schedule.held = some e.fact)
    (hknown : (meshStateRank e.fact.status).isSome = true) (hzero : e.fact.changedAt ≠ 0) (hbelow : t.NotBelow e.fact.status) :
    (⟨q, t.ended, t.term ++ [e]⟩ : Publishing).MeshInv := by
  have hq : ∀ f, q.schedule.held = some f → f = e.fact := fun f hf => (Option.some.inj (hheld.symm.trans hf)).symm
  have hall : (⟨q, t.ended, t.term ++ [e]⟩ : Publishing).all = t.all ++ [e] := by simp [all]
  refine ⟨fun f hf => ?_, fun f hf hz => ?_, fun f hf => ?_, ?_⟩
  · rw [hq f hf]
    exact hknown
  · rw [hq f hf] at hz
    exact absurd hz hzero
  · rw [hq f hf]
    unfold NotBelow at hbelow ⊢
    rw [hall, List.all_append, hbelow, Bool.true_and, List.all_cons, rankBelow_irrefl]
    rfl
  · rw [hall]
    refine List.pairwise_append.mpr ⟨h.forward, List.pairwise_singleton _ _, fun d hd x hx => ?_⟩
    rw [List.mem_singleton.mp hx]
    exact hbelow.mem hd

/-- A frame that follows the last of the term, of the fact then held, joins what was sent. -/
theorem Inv.sent {q : StatusPublisher} {e : Carried} (h : t.Inv) (hscope : q.scope = t.publisher.scope)
    (hnode : q.node = t.publisher.node) (hrole : q.role = true)
    (hframe : FrameOf t.publisher.scope t.publisher.node e.fact e)
    (hnext : ∀ d, t.term.getLast? = some d → Next t.publisher.scope d e)
    (hlive : (⟨q, t.ended, t.term ++ [e]⟩ : Publishing).Live e)
    (hcached : ∀ c, q.context = some c → c.1.changedAt ≤ e.fact.changedAt)
    (hmesh : ∀ name, t.publisher.scope = .mesh name →
      (meshStateRank e.fact.status).isSome = true ∧ e.fact.changedAt ≠ 0 ∧ t.NotBelow e.fact.status) :
    (⟨q, t.ended, t.term ++ [e]⟩ : Publishing).Inv := by
  have hends : ∀ d, (t.term ++ [e]).getLast? = some d → d = e := by
    intro d hd
    simpa using hd.symm
  exact
    { ended := by rw [hscope]; exact h.ended
      chain := by
        rw [hscope]
        refine List.isChain_append.mpr ⟨h.chain, .singleton e, fun d hd x hx => ?_⟩
        cases hx
        exact hnext d hd
      bounded := by
        refine h.bounded.append ?_
        rw [show trailing (t.term ++ [e]) e.fact = q.schedule.sent from hlive.row]
        exact hlive.sent
      frames := by
        intro d hd
        rw [hscope, hnode]
        rcases List.mem_append.mp hd with hold | hnew
        · exact h.frames d hold
        · rw [List.mem_singleton.mp hnew]
          exact hframe
      idle := fun hidle => by
        rw [show q.role = true from hrole] at hidle
        cases hidle
      quiet := by simp
      linked := by
        intro d hd
        rw [hends d hd]
        exact Or.inl hlive
      cached := by
        intro c hc d hd
        rw [hends d hd]
        exact hcached c hc
      mesh := by
        intro name hname
        rw [hscope] at hname
        obtain ⟨hknown, hzero, hbelow⟩ := hmesh name hname
        exact (h.mesh name hname).sent hlive.held hknown hzero hbelow }

/-- A fact past what the term sent is sent for the first time. -/
theorem Inv.first (h : t.Inv) (hrole : t.publisher.role = true) (hheld : s.held = some fact) (hsent : s.sent = 1)
    (hwaits : s.awaitingChecklist = false) (hafter : t.After fact.changedAt) (hauthor : t.AuthorOk)
    (hmesh : ∀ name, t.publisher.scope = .mesh name →
      (meshStateRank fact.status).isSome = true ∧ fact.changedAt ≠ 0 ∧ t.NotBelow fact.status) (trace : Trace) :
    (t.sends (s, some fact) trace).Inv := by
  have hframed := framed_of_uncached (p := { t.publisher with schedule := s }) trace (h.uncached hafter)
  unfold sends StatusPublisher.send
  dsimp only
  generalize { t.publisher with schedule := s }.frame fact trace = out at hframed
  obtain ⟨q, e⟩ := out
  dsimp only at hframed ⊢
  have hfact : e.fact = fact := hframed.frame.fact_eq
  have hlater : ∀ d, t.term.getLast? = some d → d.fact ≠ fact := by
    intro d hd heq
    have hlt := hafter.lt hd
    rw [heq, UInt64.lt_iff_toNat_lt] at hlt
    omega
  have hrow : trailing (t.term ++ [e]) fact = 1 := by
    rw [trailing_append, if_pos hfact, trailing_of_last hlater]
  have hschedule : q.schedule = s := hframed.schedule
  subst hfact
  refine h.sent hframed.scope hframed.node (hframed.role.trans hrole) hframed.frame (fun d hd => ?_) ?_ (fun c hc => ?_) hmesh
  · have hd' := h.frames d (List.mem_of_getLast? hd)
    have hlt := hafter.lt hd
    refine Or.inr ⟨hlt, takes_of_later hd' hframed.frame hlt fun r r' hr hr' => ?_⟩
    obtain ⟨a, ha, rfl⟩ := hframed.revision r' hr'
    exact hauthor.le hd hr ha
  · refine ⟨?_, ?_, ?_, ?_, fun _ => ?_, hframed.context⟩
    · rw [hschedule]
      exact hwaits
    · rw [hschedule]
      exact hheld
    · rw [hschedule]
      exact hrow.trans hsent.symm
    · rw [hschedule, hsent]
      decide
    · rw [hschedule, hsent]
      decide
  · rcases hframed.cached c hc with hold | hnew
    · cases hlast : t.term.getLast? with
      | none =>
        have hold' : t.publisher.context = some c := hold
        rw [(h.quiet (List.getLast?_eq_none_iff.mp hlast)).1] at hold'
        cases hold'
      | some l =>
        have hle := h.cached c hold l hlast
        have hlt := hafter.lt hlast
        rw [UInt64.le_iff_toNat_le] at hle ⊢
        rw [UInt64.lt_iff_toNat_lt] at hlt
        omega
    · rw [hnew]
      exact UInt64.le_refl _

/-- The frame of the fact last sent is the one it was sent in. -/
theorem Live.frame {e : Carried} (hlive : t.Live e) (he : FrameOf t.publisher.scope t.publisher.node e.fact e)
    (hdue : t.DueOk) (s : StatusReinforcement) (trace : Trace) :
    ({ t.publisher with schedule := s } : StatusPublisher).frame e.fact trace = ({ t.publisher with schedule := s }, e) := by
  have hdata := he.data_eq
  unfold StatusPublisher.frame
  dsimp only
  rw [hlive.context, ← hdata]
  obtain ⟨context, data⟩ := e
  cases context with
  | some c => rfl
  | none =>
    have hauthor : t.publisher.author = none := by
      rcases hdue with hnone | hcached
      · exact hnone
      · have hfilter := hlive.context
        rw [hlive.held] at hcached
        cases hc : t.publisher.context with
        | none => simp [hc] at hcached
        | some c =>
          have hsame : (⟨none, data⟩ : Carried).fact = c.1 := by simpa [hc] using hcached
          simp [hc, ← hsame] at hfilter
    simp only [Option.map_none, hauthor]

theorem Inv.repeats (h : t.Inv) {e : Carried} (he : t.term.getLast? = some e) (hlive : t.Live e) (hdue : t.DueOk)
    (hmore : t.publisher.schedule.sent < statusSends) (hheld : s.held = t.publisher.schedule.held)
    (hsent : s.sent = t.publisher.schedule.sent + 1) (hwaits : s.awaitingChecklist = false)
    (hlast : s.nextAt.isSome = true → s.sent < statusSends) (trace : Trace) :
    (t.sends (s, some e.fact) trace).Inv := by
  have hmem := List.mem_of_getLast? he
  have hframe := hlive.frame (h.frames e hmem) hdue s trace
  unfold sends StatusPublisher.send
  dsimp only
  rw [hframe]
  have hrow : trailing (t.term ++ [e]) e.fact = s.sent := by
    rw [trailing_append, if_pos rfl, hlive.row, hsent]
  have hrole : t.publisher.role = true := by
    by_contra hidle
    rw [h.idle (Bool.not_eq_true _ ▸ hidle)] at hmem
    cases hmem
  refine h.sent rfl rfl hrole (h.frames e hmem) (fun d hd => ?_) ?_ (fun c hc => h.cached c hc e he) fun name hname => ?_
  · exact Or.inl (Option.some.inj (he.symm.trans hd))
  · exact ⟨hwaits, hheld.trans hlive.held, hrow, by dsimp only; omega, hlast, hlive.context⟩
  · have hmesh := h.mesh name hname
    refine ⟨hmesh.known _ hlive.held, fun hzero => ?_, hmesh.below _ hlive.held⟩
    have hwaiting := (hmesh.zero _ hlive.held hzero).2
    rw [hlive.waits] at hwaiting
    cases hwaiting

theorem Inv.silent (h : t.Inv) (trace : Trace) : (t.sends (t.publisher.schedule, none) trace).Inv := by
  unfold sends StatusPublisher.send
  simp only [Option.toList_none, List.append_nil]
  exact h.keeps rfl rfl rfl rfl id

theorem rankBelow_of_forward {held status : String} {a : Option Nat} (h : isForward held status = true)
    (hbelow : rankBelow (meshStateRank held) a = false) :
    (meshStateRank status).isSome = true ∧ rankBelow (meshStateRank status) a = false := by
  unfold isForward at h
  cases hheld : meshStateRank held with
  | none => simp [hheld] at h
  | some x =>
    cases hstatus : meshStateRank status with
    | none => simp [hheld, hstatus, rankBelow] at h
    | some y =>
      refine ⟨rfl, ?_⟩
      cases a with
      | none => rfl
      | some z =>
        simp only [hheld, hstatus, rankBelow, Option.isSome_some, Bool.true_and, decide_eq_true_eq,
          decide_eq_false_iff_not] at h hbelow ⊢
        omega

theorem NotBelow.forward {held status : String} (h : t.NotBelow held) (hforward : isForward held status = true) :
    t.NotBelow status := by
  unfold NotBelow at h ⊢
  rw [List.all_eq_true] at h ⊢
  intro e he
  have hbelow : rankBelow (meshStateRank held) (meshStateRank e.fact.status) = false := by
    simpa using h e he
  rw [(rankBelow_of_forward hforward hbelow).2]
  rfl

theorem Inv.last_le (h : t.Inv) {held : StatusFact} (hheld : t.publisher.schedule.held = some held) {e : Carried}
    (he : t.term.getLast? = some e) : e.fact.changedAt ≤ held.changedAt := by
  rcases h.linked e he with hlive | hwaiting
  · rw [hlive.held] at hheld
    cases hheld
    exact UInt64.le_refl _
  · obtain ⟨f, hf, hlt⟩ := hwaiting.held
    rw [hheld] at hf
    cases hf
    exact UInt64.le_of_lt hlt

theorem Inv.after_of_lt (h : t.Inv) {held : StatusFact} (hheld : t.publisher.schedule.held = some held) {instant : UInt64}
    (hlt : held.changedAt < instant) : t.After instant := by
  unfold After
  cases he : t.term.getLast? with
  | none => rfl
  | some e =>
    have hle := h.last_le hheld he
    rw [UInt64.le_iff_toNat_le] at hle
    rw [UInt64.lt_iff_toNat_lt] at hlt
    simp only [Option.all_some, decide_eq_true_eq, UInt64.lt_iff_toNat_lt]
    omega

theorem lt_stamp {held nowMs : UInt64} (h : held + 1 ≠ 0) : held < max nowMs (held + 1) := by
  have hsucc : held < held + 1 := by
    have hlt := held.toNat_lt
    have hne : (held + 1).toNat ≠ 0 := fun hzero => h (UInt64.toNat_inj.mp hzero)
    rw [UInt64.lt_iff_toNat_lt]
    rw [UInt64.toNat_add, UInt64.toNat_one] at hne ⊢
    omega
  change held < if nowMs ≤ held + 1 then held + 1 else nowMs
  split
  next => exact hsucc
  next hnot => exact UInt64.lt_trans hsucc (UInt64.not_le.mp hnot)

theorem Inv.after_waiting (h : t.Inv) {held : StatusFact} (hheld : t.publisher.schedule.held = some held)
    (hwaits : t.publisher.schedule.awaitingChecklist = true) : t.After held.changedAt := by
  unfold After
  cases he : t.term.getLast? with
  | none => rfl
  | some e =>
    rcases h.linked e he with hlive | hwaiting
    · rw [hlive.waits] at hwaits
      cases hwaits
    · obtain ⟨f, hf, hlt⟩ := hwaiting.held
      rw [hheld] at hf
      cases hf
      simpa using hlt

/-- A forward change of a mesh's state is stamped past what the term sent. -/
theorem Inv.forward (h : t.Inv) (hrole : t.publisher.role = true) (hauthor : t.AuthorOk) {held : StatusFact}
    {status : String} {nowMs : UInt64} (hheld : t.publisher.schedule.held = some held)
    (hforward : isForward held.status status = true) (hmax : held.changedAt + 1 ≠ 0)
    (hmesh : ∃ name, t.publisher.scope = .mesh name) (now : Nat) (trace : Trace) :
    (t.sends (t.publisher.schedule.observe status now (max nowMs (held.changedAt + 1))) trace).Inv := by
  obtain ⟨name, hname⟩ := hmesh
  have hlt := @lt_stamp held.changedAt nowMs hmax
  have hother : held.status ≠ status := by
    intro heq
    rw [heq, isForward, rankBelow_irrefl, Bool.and_false] at hforward
    cases hforward
  have hobserve : t.publisher.schedule.observe status now (max nowMs (held.changedAt + 1)) =
      (.first ⟨status, max nowMs (held.changedAt + 1)⟩ now, some ⟨status, max nowMs (held.changedAt + 1)⟩) := by
    unfold StatusReinforcement.observe
    rw [hheld]
    simp [hother]
  rw [hobserve]
  have hbelow := (h.mesh name hname).below held hheld
  refine h.first hrole rfl rfl rfl (h.after_of_lt hheld hlt) hauthor (fun _ _ => ⟨?_, ?_, hbelow.forward hforward⟩) trace
  · exact (rankBelow_of_forward hforward (rankBelow_irrefl _)).1
  · intro hzero
    have hpos := UInt64.lt_iff_toNat_lt.mp hlt
    have hnat : (max nowMs (held.changedAt + 1)).toNat = 0 := by
      rw [show max nowMs (held.changedAt + 1) = 0 from hzero]
      rfl
    omega

theorem Inv.republished (h : t.Inv) (hrole : t.publisher.role = true) (hauthor : t.AuthorOk) {held : StatusFact}
    (hheld : t.publisher.schedule.held = some held) (hwaits : t.publisher.schedule.awaitingChecklist = true)
    (hstamped : (∃ name, t.publisher.scope = .mesh name) → held.changedAt ≠ 0) (now : Nat) (trace : Trace) :
    (t.sends (t.publisher.schedule.republish now) trace).Inv := by
  unfold StatusReinforcement.republish
  rw [if_pos hwaits, hheld]
  refine h.first hrole rfl rfl rfl (h.after_waiting hheld hwaits) hauthor (fun name hname => ?_) trace
  have hmesh := h.mesh name hname
  exact ⟨hmesh.known held hheld, hstamped ⟨name, hname⟩, hmesh.below held hheld⟩

theorem Inv.term_of_none (h : t.Inv) (hnone : t.publisher.schedule.held = none) : t.term = [] := by
  rw [← List.getLast?_eq_none_iff]
  cases he : t.term.getLast? with
  | none => rfl
  | some e =>
    rcases h.linked e he with hlive | hwaiting
    · have hheld := hlive.held
      rw [hnone] at hheld
      cases hheld
    · obtain ⟨f, hf, _⟩ := hwaiting.held
      rw [hnone] at hf
      cases hf

theorem Inv.term_of_zero (h : t.Inv) {held : StatusFact} (hheld : t.publisher.schedule.held = some held)
    (hwaits : t.publisher.schedule.awaitingChecklist = true) (hzero : held.changedAt = 0) : t.term = [] := by
  rw [← List.getLast?_eq_none_iff]
  cases he : t.term.getLast? with
  | none => rfl
  | some e =>
    have hlt := (h.after_waiting hheld hwaits).lt he
    rw [hzero, UInt64.lt_iff_toNat_lt] at hlt
    exact absurd hlt (Nat.not_lt_zero _)

theorem after_of_nil (hnil : t.term = []) (instant : UInt64) : t.After instant := by
  unfold After
  rw [hnil]
  rfl

theorem HeldOk.held {p : StatusPublisher} {status : String} {nowMs : UInt64} {held : StatusFact} (h : HeldOk p status nowMs)
    (hheld : p.schedule.held = some held) :
    (held.changedAt = 0 → nowMs ≠ 0) ∧ (isForward held.status status = true → held.changedAt + 1 ≠ 0) := by
  unfold HeldOk at h
  simp only [hheld, Option.all_some, Bool.and_eq_true, Bool.or_eq_true, bne_iff_ne, Bool.not_eq_true'] at h
  obtain ⟨hzero, hmax⟩ := h
  refine ⟨fun heq => hzero.resolve_left (absurd heq), fun hforward => hmax.resolve_left ?_⟩
  rw [hforward]
  exact Bool.noConfusion

theorem Inv.firstState (h : t.Inv) (hrole : t.publisher.role = true) (hnil : t.term = []) {nowMs : UInt64}
    (hstamped : nowMs ≠ 0) (hbelow : t.NotBelow "pending") (now : Nat) (trace : Trace) :
    (t.sends (.first ⟨"pending", nowMs⟩ now, some ⟨"pending", nowMs⟩) trace).Inv := by
  have hauthor : t.AuthorOk := by
    unfold AuthorOk
    rw [hnil]
    rfl
  exact h.first hrole rfl rfl rfl (after_of_nil hnil nowMs) hauthor (fun _ _ => ⟨rfl, hstamped, hbelow⟩) trace

theorem Inv.observesHeld (h : t.Inv) (hrole : t.publisher.role = true) (hauthor : t.AuthorOk)
    (hmesh : ∃ name, t.publisher.scope = .mesh name) {status : String} {nowMs : UInt64}
    (hok : HeldOk t.publisher status nowMs) (complete : Bool) (now : Nat) (trace : Trace) :
    (t.sends (t.publisher.observeHeld status complete now nowMs) trace).Inv := by
  obtain ⟨name, hname⟩ := hmesh
  unfold StatusPublisher.observeHeld
  cases hheld : t.publisher.schedule.held with
  | none => exact h.silent trace
  | some held =>
    obtain ⟨hfirst, hmax⟩ := hok.held hheld
    dsimp only
    split
    next hzero =>
      obtain ⟨hpending, hwaits⟩ := (h.mesh name hname).zero held hheld hzero
      have hbelow := (h.mesh name hname).below held hheld
      rw [if_pos hpending, hpending]
      rw [hpending] at hbelow
      exact h.firstState hrole (h.term_of_zero hheld hwaits hzero) (hfirst hzero) hbelow now trace
    next hzero =>
      have hforward := fun hf => @Inv.forward t h hrole hauthor held status nowMs hheld hf (hmax hf) ⟨name, hname⟩ now trace
      by_cases hwaits : t.publisher.schedule.awaitingChecklist = true
      · rw [if_pos hwaits]
        split
        next => exact h.silent trace
        next =>
          split
          next hf => exact hforward hf
          next => exact h.republished hrole hauthor hheld hwaits (fun _ => hzero) now trace
      · rw [if_neg hwaits]
        split
        next hf => exact hforward hf
        next => exact h.silent trace

theorem Inv.handed (h : t.Inv) (hok : t.AdoptOk fact) :
    ({ t with publisher := (t.publisher.adopt fact).1 } : Publishing).Inv := by
  unfold StatusPublisher.adopt
  split
  next hadopts =>
    obtain ⟨hafter, hmesh⟩ := hok hadopts
    refine h.adopted hafter fun name hname => ⟨?_, ?_⟩
    · unfold StatusPublisher.adopts at hadopts
      rw [Bool.and_eq_true, Bool.not_eq_true'] at hadopts
      exact hadopts.1
    · rw [hname] at hmesh
      exact hmesh
  next => exact h

theorem adopt_author (p : StatusPublisher) (fact : StatusFact) :
    (p.adopt fact).1.author = p.author ∧ (p.adopt fact).1.role = p.role ∧ (p.adopt fact).1.scope = p.scope := by
  unfold StatusPublisher.adopt
  split <;> exact ⟨rfl, rfl, rfl⟩

theorem Inv.observesMesh (h : t.Inv) (hrole : t.publisher.role = true) (hauthor : t.AuthorOk)
    (hmesh : ∃ name, t.publisher.scope = .mesh name) {status : String} {heard : Option StatusFact} {nowMs : UInt64}
    (hok : t.MeshOk status heard nowMs) (complete : Bool) (now : Nat) (trace : Trace) :
    (({ t with publisher := (t.publisher.observeMesh status heard complete now nowMs).1 } : Publishing).sends
      (t.publisher.observeMesh status heard complete now nowMs).2 trace).Inv := by
  unfold MeshOk at hok
  unfold StatusPublisher.observeMesh
  cases hhears : t.publisher.hears heard with
  | none =>
    rw [hhears] at hok
    exact h.observesHeld hrole hauthor hmesh hok complete now trace
  | some fact =>
    rw [hhears] at hok
    dsimp only at hok ⊢
    split
    next hfirst =>
      rw [if_pos hfirst] at hok
      have hnone := Option.isNone_iff_eq_none.mp hfirst.2
      split
      next hpending =>
        obtain ⟨hstamped, hbelow⟩ := hok hpending
        have hobserve : t.publisher.schedule.observe fact.status now nowMs =
            (.first ⟨"pending", nowMs⟩ now, some ⟨"pending", nowMs⟩) := by
          unfold StatusReinforcement.observe
          rw [hnone, hpending]
          rfl
        dsimp only
        rw [hobserve]
        exact h.firstState hrole (h.term_of_none hnone) hstamped hbelow now trace
      next => exact h.silent trace
    next hfirst =>
      rw [if_neg hfirst] at hok
      obtain ⟨hadopt, hheld⟩ := hok
      obtain ⟨hnamed, hkept, hscope⟩ := adopt_author t.publisher fact
      have hauthor' : ({ t with publisher := (t.publisher.adopt fact).1 } : Publishing).AuthorOk := by
        unfold AuthorOk at hauthor ⊢
        dsimp only
        rw [hnamed]
        exact hauthor
      exact (h.handed hadopt).observesHeld (hkept.trans hrole) hauthor' (hmesh.imp fun name hname => hscope.trans hname)
        hheld complete now trace

theorem Inv.hearsFabric (h : t.Inv) {name : String} (hname : t.publisher.scope = .fabric name) (status : String)
    (heard : Option StatusFact) : ({ t with publisher := t.publisher.hearFabric status heard } : Publishing).Inv := by
  unfold StatusPublisher.hearFabric
  split
  next fact hheard =>
    split at hheard
    next hnone =>
      have hnil := h.term_of_none (Option.isNone_iff_eq_none.mp hnone)
      have hcontext := (h.quiet hnil).1
      have hadopted := h.adopted (after_of_nil hnil fact.changedAt) fun id hid => by
        rw [hname] at hid
        cases hid
      rw [← hcontext] at hadopted
      exact hadopted
    next => cases hheard
  next => exact h

theorem hearFabric_kept (p : StatusPublisher) (status : String) (heard : Option StatusFact) :
    (p.hearFabric status heard).author = p.author ∧ (p.hearFabric status heard).role = p.role ∧
      (p.hearFabric status heard).scope = p.scope := by
  unfold StatusPublisher.hearFabric
  split <;> exact ⟨rfl, rfl, rfl⟩

theorem hearFabric_held {p : StatusPublisher} {status : String} {heard : Option StatusFact}
    (h : (p.hearFabric status heard).schedule.held.any (fun f => f.status == status) = false) :
    p.schedule.held.any (fun f => f.status == status) = false := by
  unfold StatusPublisher.hearFabric at h
  split at h
  next fact hheard =>
    split at hheard
    next hnone =>
      rw [Option.isNone_iff_eq_none.mp hnone]
      rfl
    next => cases hheard
  next => exact h

theorem Inv.observesFabric (h : t.Inv) (hrole : t.publisher.role = true) (hauthor : t.AuthorOk) {name : String}
    (hname : t.publisher.scope = .fabric name) {status : String} {nowMs : UInt64}
    (hafter : t.publisher.schedule.held.any (fun f => f.status == status) = false → t.After nowMs) (complete : Bool)
    (now : Nat) (trace : Trace) : (t.sends (t.publisher.observeFabric status complete now nowMs) trace).Inv := by
  have hother : ∀ id, t.publisher.scope ≠ .mesh id := by simp [hname]
  unfold StatusPublisher.observeFabric
  split
  next hwaiting =>
    rw [Bool.and_eq_true] at hwaiting
    split
    next =>
      cases hheld : t.publisher.schedule.held with
      | none => simp [hheld] at hwaiting
      | some held =>
        exact h.republished hrole hauthor hheld hwaiting.1 (fun hmesh => absurd hmesh.choose_spec (hother _)) now trace
    next => exact h.silent trace
  next =>
    unfold StatusReinforcement.observe
    split
    next => exact h.silent trace
    next hchanged =>
      refine h.first hrole rfl rfl rfl (hafter (Bool.not_eq_true _ ▸ hchanged)) hauthor (fun id hid => ?_) trace
      exact absurd hid (hother id)

theorem Inv.dues (h : t.Inv) {now : Nat}
    (hdue : t.publisher.schedule.nextAt.any (fun instant => decide (instant ≤ now)) = true → t.DueOk) (trace : Trace) :
    (t.sends (t.publisher.schedule.due now) trace).Inv := by
  unfold StatusReinforcement.due
  cases hnext : t.publisher.schedule.nextAt with
  | none => exact h.silent trace
  | some instant =>
    dsimp only
    split
    next => exact h.silent trace
    next hnow =>
      have hsome : t.publisher.schedule.nextAt.isSome = true := by rw [hnext]; rfl
      have hready : t.publisher.schedule.nextAt.any (fun instant => decide (instant ≤ now)) = true := by
        simpa [hnext] using hnow
      cases he : t.term.getLast? with
      | none =>
        have hquiet := (h.quiet (List.getLast?_eq_none_iff.mp he)).2.1
        rw [hnext] at hquiet
        cases hquiet
      | some e =>
        rcases h.linked e he with hlive | hwaiting
        · rw [hlive.held]
          refine h.repeats he hlive (hdue hready) (hlive.more hsome) ?_ ?_ ?_ ?_ trace
          · exact hlive.held.symm
          · rfl
          · exact hlive.waits
          · intro hmore
            dsimp only at hmore ⊢
            split at hmore
            next hlt => exact hlt
            next => cases hmore
        · rw [hwaiting.nextAt] at hnext
          cases hnext

theorem send_role (p : StatusPublisher) (out : StatusReinforcement × Option StatusFact) (trace : Trace) :
    (p.send out trace).1.role = p.role := by
  unfold StatusPublisher.send StatusPublisher.frame
  dsimp only
  split
  next => rfl
  next =>
    split
    next => rfl
    next => split <;> rfl

theorem step_sends {call : PublisherCall} {p : StatusPublisher} {out : StatusReinforcement × Option StatusFact}
    {trace : Trace} (hcall : t.publisher.call call = p.send out trace) (hrole : p.role = true) :
    t.step call = ({ t with publisher := p } : Publishing).sends out trace := by
  unfold step sends
  dsimp only
  rw [hcall, send_role, hrole, Bool.not_true, Bool.and_false]
  rfl

theorem step_idle {call : PublisherCall} (hcall : t.publisher.call call = (t.publisher, none)) : t.step call = t := by
  unfold step
  rw [hcall]
  simp

/-- Nothing is sent of the status a publisher holds and has sent. -/
theorem Inv.settled (h : t.Inv) {status : String} (hsettled : t.Settled status) (heard : Option StatusFact) (complete : Bool)
    (now : Nat) (nowMs : UInt64) (trace : Trace) :
    t.publisher.call (.observe status heard complete now nowMs trace) = (t.publisher, none) := by
  obtain ⟨hwaits, hsame⟩ := hsettled
  cases hheld : t.publisher.schedule.held with
  | none => simp [hheld] at hsame
  | some held =>
    have hstatus : held.status = status := by simpa [hheld] using hsame
    unfold StatusPublisher.call StatusPublisher.observe
    dsimp only
    split
    next => rfl
    next =>
      split
      next name hname =>
        have hstamped : held.changedAt ≠ 0 := by
          intro hzero
          rw [((h.mesh name hname).zero held hheld hzero).2] at hwaits
          cases hwaits
        have hbehind : isForward status status = false := by simp [isForward, rankBelow_irrefl]
        have hhears : t.publisher.hears heard = none := by simp [StatusPublisher.hears, hheld, hwaits]
        simp [StatusPublisher.observeMesh, hhears, StatusPublisher.observeHeld, hheld, hstamped, hstatus, hbehind, hwaits,
          StatusPublisher.send]
      next =>
        simp [StatusPublisher.hearFabric, StatusPublisher.observeFabric, StatusReinforcement.observe, hheld, hwaits, hstatus,
          StatusPublisher.send]

theorem Inv.step (h : t.Inv) {call : PublisherCall} (hok : t.StepOk call) : (t.step call).Inv := by
  cases call with
  | setRole primary =>
    unfold Publishing.step StatusPublisher.call StatusPublisher.setRole
    dsimp only
    split
    next hlost =>
      have hnot : primary = false := by simpa using (Bool.and_eq_true_iff.mp hlost).2
      subst hnot
      exact h.lost
    next hkept =>
      rw [Option.toList_none, List.append_nil]
      refine h.keeps rfl rfl rfl rfl fun hidle => ?_
      dsimp only at hidle
      simpa [hidle] using hkept
  | setAuthor author =>
    have hstep : t.step (.setAuthor author) = { t with publisher := t.publisher.setAuthor author } := by
      unfold Publishing.step StatusPublisher.call StatusPublisher.setAuthor
      simp
    rw [hstep]
    exact h.keeps rfl rfl rfl rfl id
  | adopt fact =>
    have hstep : t.step (.adopt fact) = { t with publisher := (t.publisher.adopt fact).1 } := by
      unfold Publishing.step StatusPublisher.call
      simp [(adopt_author t.publisher fact).2.1]
    rw [hstep]
    exact h.handed hok
  | observe status heard complete now nowMs trace =>
    cases hrole : t.publisher.role with
    | false =>
      rw [step_idle (by simp [StatusPublisher.call, StatusPublisher.observe, hrole])]
      exact h
    | true =>
      by_cases hsettled : t.Settled status
      · rw [step_idle (h.settled hsettled heard complete now nowMs trace)]
        exact h
      obtain ⟨hauthor, hscoped⟩ := hok hrole hsettled
      cases hname : t.publisher.scope with
      | mesh name =>
        rw [hname] at hscoped
        have hcall : t.publisher.call (.observe status heard complete now nowMs trace) =
            (t.publisher.observeMesh status heard complete now nowMs).1.send
              (t.publisher.observeMesh status heard complete now nowMs).2 trace := by
          simp [StatusPublisher.call, StatusPublisher.observe, hrole, hname]
        have hkept : (t.publisher.observeMesh status heard complete now nowMs).1.role = true := by
          unfold StatusPublisher.observeMesh
          split
          next fact _ =>
            split
            next => exact hrole
            next => exact (adopt_author t.publisher fact).2.1.trans hrole
          next => exact hrole
        rw [step_sends hcall hkept]
        exact h.observesMesh hrole hauthor ⟨name, hname⟩ hscoped complete now trace
      | fabric name =>
        rw [hname] at hscoped
        obtain ⟨hnamed, hkept, hscope⟩ := hearFabric_kept t.publisher status heard
        have hcall : t.publisher.call (.observe status heard complete now nowMs trace) =
            (t.publisher.hearFabric status heard).send
              ((t.publisher.hearFabric status heard).observeFabric status complete now nowMs) trace := by
          simp [StatusPublisher.call, StatusPublisher.observe, hrole, hname]
        rw [step_sends hcall (hkept.trans hrole)]
        have hauthor' : ({ t with publisher := t.publisher.hearFabric status heard } : Publishing).AuthorOk := by
          unfold AuthorOk at hauthor ⊢
          dsimp only
          rw [hnamed]
          exact hauthor
        exact (h.hearsFabric hname status heard).observesFabric (hkept.trans hrole) hauthor' (hscope.trans hname)
          (fun hchanged => hscoped (hearFabric_held hchanged)) complete now trace
  | due now trace =>
    cases hrole : t.publisher.role with
    | false =>
      rw [step_idle (by simp [StatusPublisher.call, StatusPublisher.due, hrole])]
      exact h
    | true =>
      have hcall : t.publisher.call (.due now trace) = t.publisher.send (t.publisher.schedule.due now) trace := by
        simp [StatusPublisher.call, StatusPublisher.due, hrole]
      rw [step_sends hcall hrole]
      exact h.dues (hok hrole) trace

theorem call_scope (p : StatusPublisher) (call : PublisherCall) : (p.call call).1.scope = p.scope := by
  have hsend : ∀ (q : StatusPublisher) out trace, (q.send out trace).1.scope = q.scope := by
    intro q out trace
    unfold StatusPublisher.send StatusPublisher.frame
    dsimp only
    split
    next => rfl
    next =>
      split
      next => rfl
      next => split <;> rfl
  cases call with
  | setRole primary =>
    unfold StatusPublisher.call StatusPublisher.setRole
    dsimp only
    split <;> rfl
  | setAuthor author => rfl
  | adopt fact => exact (adopt_author p fact).2.2
  | observe status heard complete now nowMs trace =>
    unfold StatusPublisher.call StatusPublisher.observe
    dsimp only
    split
    next => rfl
    next =>
      split
      next =>
        rw [hsend]
        unfold StatusPublisher.observeMesh
        split
        next fact _ =>
          split
          next => rfl
          next => exact (adopt_author p fact).2.2
        next => rfl
      next =>
        rw [hsend]
        exact (hearFabric_kept p status heard).2.2
  | due now trace =>
    unfold StatusPublisher.call StatusPublisher.due
    dsimp only
    split
    next => rfl
    next => exact hsend p _ trace

theorem step_scope (t : Publishing) (call : PublisherCall) : (t.step call).publisher.scope = t.publisher.scope := by
  unfold step
  dsimp only
  split <;> exact call_scope t.publisher call

theorem run_scope (t : Publishing) (calls : List PublisherCall) : (calls.foldl step t).publisher.scope = t.publisher.scope := by
  induction calls generalizing t with
  | nil => rfl
  | cons call calls ih => exact (ih (t.step call)).trans (step_scope t call)

theorem call_without_role {p : StatusPublisher} (h : p.role = false) (call : PublisherCall) : (p.call call).2 = none := by
  cases call <;> simp [StatusPublisher.call, StatusPublisher.observe, StatusPublisher.due, h]

end Sends

/-- The frames of one term: a change of the status is stamped later and taken by the holders of the frame before it,
a fact has one frame, and none is sent more than five times in a row. -/
structure Disciplined (scope : StatusScope) (term : List Carried) : Prop where
  changes : term.IsChain fun e e' =>
    e'.fact.status ≠ e.fact.status → e.fact.changedAt < e'.fact.changedAt ∧ Takes scope e e'
  repeats : term.Pairwise fun e e' => e'.fact = e.fact → e' = e
  bounded : Bounded term

theorem Disciplined.of_chain {scope : StatusScope} {term : List Carried} (hchain : term.IsChain (Next scope))
    (hbounded : Bounded term) : Disciplined scope term where
  changes := by
    refine hchain.imp fun e e' hnext hchanged => ?_
    rcases hnext with rfl | hlater
    · exact absurd rfl hchanged
    · exact hlater
  repeats := by
    have htrans : ∀ {a b c : Carried}, (b = a ∨ a.fact.changedAt < b.fact.changedAt) →
        (c = b ∨ b.fact.changedAt < c.fact.changedAt) → (c = a ∨ a.fact.changedAt < c.fact.changedAt) := by
      rintro a b c (rfl | hab) (rfl | hbc)
      · exact Or.inl rfl
      · exact Or.inr hbc
      · exact Or.inr hab
      · exact Or.inr (UInt64.lt_trans hab hbc)
    have : Trans (fun e e' : Carried => e' = e ∨ e.fact.changedAt < e'.fact.changedAt)
        (fun e e' : Carried => e' = e ∨ e.fact.changedAt < e'.fact.changedAt)
        (fun e e' : Carried => e' = e ∨ e.fact.changedAt < e'.fact.changedAt) := ⟨htrans⟩
    have hordered : term.Pairwise fun e e' => e' = e ∨ e.fact.changedAt < e'.fact.changedAt :=
      (hchain.imp fun e e' hnext => hnext.imp id And.left).pairwise
    refine hordered.imp fun {e e'} hor heq => ?_
    rcases hor with rfl | hlt
    · rfl
    · rw [heq, UInt64.lt_iff_toNat_lt] at hlt
      exact absurd hlt (Nat.lt_irrefl _)
  bounded := hbounded

/-- In every run whose calls meet their conditions, the publisher sends nothing without its role, keeps the discipline
of every term, and never takes a mesh's state back. -/
theorem publisher_discipline (node : String) (scope : StatusScope) (calls : List PublisherCall)
    (h : RunOk step StepOk (start node scope) calls) :
    (∀ call, (calls.foldl step (start node scope)).publisher.role = false →
      ((calls.foldl step (start node scope)).publisher.call call).2 = none) ∧
    (∀ term ∈ (calls.foldl step (start node scope)).ended ++ [(calls.foldl step (start node scope)).term],
      Disciplined scope term) ∧
    (∀ name, scope = .mesh name → (calls.foldl step (start node scope)).all.Pairwise fun e e' =>
      rankBelow (meshStateRank e'.fact.status) (meshStateRank e.fact.status) = false) := by
  have hinv : (calls.foldl step (start node scope)).Inv := h.invariant (fun t call ht hok => ht.step hok) (inv_start node scope)
  have hscope : (calls.foldl step (start node scope)).publisher.scope = scope := run_scope (start node scope) calls
  refine ⟨fun call hrole => call_without_role hrole call, fun term hterm => ?_, fun name hname => ?_⟩
  · rcases List.mem_append.mp hterm with hended | hcurrent
    · obtain ⟨hchain, hbounded⟩ := hinv.ended term hended
      rw [hscope] at hchain
      exact .of_chain hchain hbounded
    · rw [List.mem_singleton.mp hcurrent]
      have hchain := hinv.chain
      rw [hscope] at hchain
      exact .of_chain hchain hinv.bounded
  · exact (hinv.mesh name (hscope.trans hname)).forward

instance (t : Publishing) (instant : UInt64) : Decidable (t.After instant) := inferInstanceAs (Decidable (_ = true))

instance (t : Publishing) (status : String) : Decidable (t.NotBelow status) := inferInstanceAs (Decidable (_ = true))

instance (t : Publishing) : Decidable t.AuthorOk := inferInstanceAs (Decidable (_ = true))

instance (p : StatusPublisher) (status : String) (nowMs : UInt64) : Decidable (HeldOk p status nowMs) :=
  inferInstanceAs (Decidable (_ = true))

instance (t : Publishing) (status : String) (nowMs : UInt64) : Decidable (t.FabricOk status nowMs) :=
  inferInstanceAs (Decidable (_ → t.After nowMs))

instance (t : Publishing) : Decidable t.DueOk := inferInstanceAs (Decidable (_ = none ∨ _ = true))

instance (t : Publishing) (status : String) : Decidable (t.Settled status) := inferInstanceAs (Decidable (_ ∧ _))

instance (t : Publishing) (fact : StatusFact) : Decidable (t.AdoptOk fact) :=
  match hscope : t.publisher.scope with
  | .mesh _ =>
    decidable_of_iff (t.publisher.adopts fact = true → t.After fact.changedAt ∧ t.NotBelow fact.status)
      (by rw [AdoptOk, hscope])
  | .fabric _ => decidable_of_iff (t.publisher.adopts fact = true → t.After fact.changedAt) (by simp [AdoptOk, hscope])

instance (t : Publishing) (status : String) (heard : Option StatusFact) (nowMs : UInt64) :
    Decidable (t.MeshOk status heard nowMs) :=
  match hhears : t.publisher.hears heard with
  | some h =>
    decidable_of_iff
      (if h.changedAt = 0 ∧ t.publisher.schedule.held.isNone then h.status = "pending" → nowMs ≠ 0 ∧ t.NotBelow "pending"
        else t.AdoptOk h ∧ HeldOk (t.publisher.adopt h).1 status nowMs)
      (by rw [MeshOk, hhears])
  | none => decidable_of_iff (HeldOk t.publisher status nowMs) (by rw [MeshOk, hhears])

instance (t : Publishing) : (call : PublisherCall) → Decidable (t.StepOk call)
  | .setRole _ => .isTrue trivial
  | .setAuthor _ => .isTrue trivial
  | .adopt fact => inferInstanceAs (Decidable (t.AdoptOk fact))
  | .observe status heard _ _ nowMs _ =>
    match hscope : t.publisher.scope with
    | .mesh _ =>
      decidable_of_iff (t.publisher.role = true → ¬ t.Settled status → t.AuthorOk ∧ t.MeshOk status heard nowMs)
        (by rw [StepOk, hscope])
    | .fabric _ =>
      decidable_of_iff (t.publisher.role = true → ¬ t.Settled status → t.AuthorOk ∧ t.FabricOk status nowMs)
        (by rw [StepOk, hscope])
  | .due _ _ => inferInstanceAs (Decidable (_ → _ → t.DueOk))

/-- A mesh's primary takes a pending mesh over, sends it when its checklist completes, sees it ready, loses the role and
takes the ready mesh over again. -/
def takenOver : List PublisherCall :=
  [.setRole true, .setAuthor (some (⟨"f", "n1", "b1"⟩, 3)),
    .observe "pending" (some ⟨"pending", 4⟩) false 0 10 ⟨none, none⟩,
    .observe "pending" (some ⟨"pending", 4⟩) true 1 10 ⟨none, none⟩,
    .due 1000000001 ⟨none, none⟩,
    .observe "ready" none true 1000000001 10 ⟨none, none⟩,
    .setRole false, .setRole true,
    .observe "pending" (some ⟨"ready", 10⟩) true 1000000002 11 ⟨none, none⟩]

theorem publisher_discipline_takenOver :
    (takenOver.foldl step (start "n1" (.mesh "m"))).all.map Carried.fact =
        [⟨"pending", 4⟩, ⟨"pending", 4⟩, ⟨"ready", 10⟩, ⟨"ready", 10⟩] ∧
      Disciplined (.mesh "m") (takenOver.foldl step (start "n1" (.mesh "m"))).term := by
  have hrun : RunOk step StepOk (start "n1" (.mesh "m")) takenOver := by decide +kernel
  refine ⟨by decide +kernel, ?_⟩
  exact (publisher_discipline "n1" (.mesh "m") takenOver hrun).2.1 _ (by simp)

/-- The instants and the readings of a run's calls never go back. -/
def Timely (calls : List PublisherCall) : Prop :=
  (calls.filterMap fun call =>
    match call with
    | .observe _ _ _ now _ _ | .due now _ => some now
    | _ => none).IsChain (· ≤ ·) ∧
  (calls.filterMap fun call =>
    match call with
    | .observe _ _ _ _ nowMs _ => some nowMs
    | _ => none).IsChain (· ≤ ·)

/-- A fabric's primary sees it degraded within the millisecond it saw it ready in. -/
def degradedAtOnce : List PublisherCall :=
  [.setRole true, .observe "ready" none true 0 100 ⟨none, none⟩, .observe "degraded" none true 1 100 ⟨none, none⟩]

theorem change_not_taken :
    Timely degradedAtOnce ∧
      (degradedAtOnce.foldl step (start "n1" (.fabric "f"))).term.map Carried.fact = [⟨"ready", 100⟩, ⟨"degraded", 100⟩] ∧
      ¬ Disciplined (.fabric "f") (degradedAtOnce.foldl step (start "n1" (.fabric "f"))).term := by
  refine ⟨by unfold Timely; decide, by decide +kernel, fun h => ?_⟩
  have hlater : ((degradedAtOnce.foldl step (start "n1" (.fabric "f"))).term.map Carried.fact).IsChain
      fun f f' => f'.status ≠ f.status → f.changedAt < f'.changedAt := by
    rw [List.isChain_map]
    exact h.changes.imp fun e e' hchange hne => (hchange hne).1
  rw [show (degradedAtOnce.foldl step (start "n1" (.fabric "f"))).term.map Carried.fact =
    [⟨"ready", 100⟩, ⟨"degraded", 100⟩] by decide +kernel] at hlater
  revert hlater
  decide

end Publishing

end DistributedMesh.Gossip
