import DistributedMesh.Registers
import DistributedMesh.ViewMembers
import Mathlib.Data.Prod.Lex
import Mathlib.Data.String.Basic

namespace DistributedMesh

open KeyedMaps Registers

/-- What taking a record did with it. -/
inductive RoleTaken where
  | held (previous : Option Primary)
  | same
  | refused (held : Primary)
deriving DecidableEq

def RoleTaken.isRefused : RoleTaken → Bool
  | .refused _ => true
  | _ => false

/-- The role and mesh a record is held under: the fabric-primary is one per fabric. -/
def heldUnder (role : PrimaryRole) (mesh : String) : PrimaryRole × String :=
  match role with
  | .fabricPrimary => (.fabricPrimary, "")
  | .meshPrimary => (.meshPrimary, mesh)
  | .nodePrimary type => (.nodePrimary type, mesh)

/-- A record and the role it is of. -/
abbrev RoleRecord := PrimaryRole × Primary

def RoleRecord.slot (x : RoleRecord) : PrimaryRole × String := heldUnder x.1 x.2.mesh

namespace HeldRoles

/-- What becomes of a record against what is held. -/
def decided (h : HeldRoles) (x : RoleRecord) : RoleTaken :=
  match h.get x.1 x.2.mesh with
  | some held => if held = x.2 then .same else if x.2.supersedes held then .held (some held) else .refused held
  | none => .held none

/-- Every record of one update is held, or none is. -/
def takeTogether (h : HeldRoles) (records : List RoleRecord) : HeldRoles × List RoleTaken :=
  let decided := records.map h.decided
  if decided.any RoleTaken.isRefused then
    (h, records.map fun x => .refused ((h.get x.1 x.2.mesh).getD x.2))
  else (records.foldl (fun h x => h.put x.1 x.2.mesh x.2) h, decided)

end HeldRoles

namespace Primary

/-- The order of one role's records: a later revision first, then the lower node id. -/
def rank (r : Primary) : ℕ ×ₗ Stringᵒᵈ := toLex (r.revision, OrderDual.toDual r.nodeId)

theorem rank_lt_iff {a b : Primary} :
    a.rank < b.rank ↔ a.revision < b.revision ∨ (a.revision = b.revision ∧ b.nodeId < a.nodeId) := by
  unfold rank
  rw [Prod.Lex.toLex_lt_toLex]
  rfl

theorem supersedes_iff {r held : Primary} : r.supersedes held = true ↔ held.rank < r.rank := by
  rw [rank_lt_iff]
  unfold supersedes
  split
  next hne =>
    rw [decide_eq_true_eq]
    constructor
    · exact Or.inl
    · rintro (hlt | ⟨heq, -⟩)
      · exact hlt
      · exact absurd heq.symm hne
  next heq =>
    rw [decide_eq_true_eq]
    have hsame : r.revision = held.revision := not_not.mp heq
    constructor
    · rintro ⟨-, hlt⟩
      exact Or.inr ⟨hsame.symm, hlt⟩
    · rintro (hlt | ⟨-, hlt⟩)
      · omega
      · exact ⟨Or.inl hlt.ne, hlt⟩

/-- This record stands over another: it supersedes or equals it. -/
def Covers (r p : Primary) : Prop := r = p ∨ r.supersedes p = true

instance (r p : Primary) : Decidable (Covers r p) := inferInstanceAs (Decidable (_ ∨ _))

end Primary

/-- Records of one role at one revision with the same node id are equal. -/
def OnePerRevision (records : List RoleRecord) : Prop :=
  ∀ x ∈ records, ∀ y ∈ records, x.slot = y.slot → x.2.revision = y.2.revision → x.2.nodeId = y.2.nodeId →
    x.2 = y.2

instance (records : List RoleRecord) : Decidable (OnePerRevision records) :=
  inferInstanceAs (Decidable (∀ x ∈ records, ∀ y ∈ records, _))

namespace HeldRoles

variable {h : HeldRoles} {role role' : PrimaryRole} {mesh mesh' : String}

theorem get_eq_of_slot (hs : heldUnder role mesh = heldUnder role' mesh') : h.get role mesh = h.get role' mesh' := by
  cases role <;> cases role' <;> simp_all [heldUnder, get]

theorem get_put (r : Primary) :
    (h.put role mesh r).get role' mesh' =
      if heldUnder role mesh = heldUnder role' mesh' then some r else h.get role' mesh' := by
  cases role <;> cases role' <;> simp [heldUnder, get, put, getElem?_insert_eq, and_comm]

/-- One role's record after another is offered for it. -/
def offer (held : Option Primary) (r : Primary) : Option Primary :=
  match held with
  | some held => if r.supersedes held then some r else some held
  | none => some r

theorem offer_offered (held : Option Primary) (r : Primary) : Offered Primary.rank held r (offer held r) := by
  cases held with
  | none => exact .taken (by simp)
  | some held =>
    simp only [offer]
    split
    next hs =>
      refine .taken fun a ha => ?_
      cases ha
      exact (Primary.supersedes_iff.mp hs).le
    next hs => exact .kept (not_lt.mp fun hlt => hs (Primary.supersedes_iff.mpr hlt))

/-- Taking a record offers it for its role, and leaves every other role. -/
theorem get_take (x : RoleRecord) :
    (h.take x.1 x.2).get role mesh =
      if x.slot = heldUnder role mesh then offer (h.get role mesh) x.2 else h.get role mesh := by
  have hput := @get_put h x.1 role x.2.mesh mesh x.2
  by_cases hs : x.slot = heldUnder role mesh
  · have hread : h.get x.1 x.2.mesh = h.get role mesh := get_eq_of_slot hs
    unfold RoleRecord.slot at hs
    rw [if_pos hs] at hput
    rw [RoleRecord.slot, if_pos hs, take, hread]
    cases hheld : h.get role mesh with
    | none => exact hput
    | some held =>
      simp only [offer]
      split
      next heq =>
        subst heq
        rw [hheld]
        split
        · rfl
        · rfl
      next =>
        split
        next => exact hput
        next => exact hheld
  · unfold RoleRecord.slot at hs
    rw [if_neg hs] at hput
    rw [RoleRecord.slot, if_neg hs, take]
    split
    next =>
      split
      next => rfl
      next =>
        split
        next => exact hput
        next => rfl
    next => exact hput

/-- The view after its records were taken one after another. -/
def takeAll (h : HeldRoles) (records : List RoleRecord) : HeldRoles := records.foldl (fun h x => h.take x.1 x.2) h

/-- The records of one role, in their order. -/
def ofSlot (records : List RoleRecord) (role : PrimaryRole) (mesh : String) : List Primary :=
  (records.filter fun x => x.slot = heldUnder role mesh).map Prod.snd

theorem mem_ofSlot {records : List RoleRecord} {r : Primary} :
    r ∈ ofSlot records role mesh ↔ ∃ x ∈ records, x.slot = heldUnder role mesh ∧ x.2 = r := by
  simp [ofSlot, and_assoc]

theorem get_takeAll (records : List RoleRecord) :
    (h.takeAll records).get role mesh = (ofSlot records role mesh).foldl offer (h.get role mesh) := by
  induction records generalizing h with
  | nil => rfl
  | cons x xs ih =>
    unfold takeAll at ih ⊢
    rw [List.foldl_cons, ih, get_take]
    unfold ofSlot
    by_cases hs : x.slot = heldUnder role mesh
    · simp [hs]
    · simp [hs]

theorem rank_injOn {records : List RoleRecord} (hone : OnePerRevision records) :
    ∀ a ∈ ofSlot records role mesh, ∀ b ∈ ofSlot records role mesh, a.rank = b.rank → a = b := by
  intro a ha b hb hrank
  obtain ⟨x, hx, hxs, rfl⟩ := mem_ofSlot.mp ha
  obtain ⟨y, hy, hys, rfl⟩ := mem_ofSlot.mp hb
  have hfields := Prod.ext_iff.mp (toLex_inj.mp hrank)
  exact hone x hx y hy (hxs.trans hys.symm) hfields.1 hfields.2

/-- Two views given the same records end holding the same record of every role. -/
theorem takeAll_converges {xs ys : List RoleRecord} (hone : OnePerRevision xs) (hsame : ∀ x, x ∈ xs ↔ x ∈ ys) :
    (empty.takeAll xs).get role mesh = (empty.takeAll ys).get role mesh := by
  have hempty : empty.get role mesh = none := by
    cases role <;> simp [empty, get]
  rw [get_takeAll, get_takeAll, hempty]
  refine foldl_eq_of_mem_iff offer_offered (rank_injOn hone) fun r => ?_
  rw [mem_ofSlot, mem_ofSlot]
  simp only [hsame]

theorem ofSlot_slot {records : List RoleRecord} (hs : heldUnder role mesh = heldUnder role' mesh') :
    ofSlot records role mesh = ofSlot records role' mesh' := by
  unfold ofSlot
  rw [hs]

/-- A record once held is only followed by records of no lower revision. -/
theorem takeAll_forward {records : List RoleRecord} {held : Primary} (hheld : h.get role mesh = some held) :
    ∃ r, (h.takeAll records).get role mesh = some r ∧ held.revision ≤ r.revision := by
  rw [get_takeAll, hheld]
  obtain ⟨r, hr, hle⟩ := foldl_forward offer_offered (ofSlot records role mesh) held
  refine ⟨r, hr, ?_⟩
  by_contra hlt
  exact absurd (Primary.rank_lt_iff.mpr (Or.inl (not_le.mp hlt))) (not_lt.mpr hle)

/-- The record an update of several ends with for a role: the last of that role in its list. -/
def lastOf (records : List RoleRecord) (role : PrimaryRole) (mesh : String) : Option Primary :=
  (ofSlot records role mesh).getLast?

theorem get_putAll (records : List RoleRecord) :
    (records.foldl (fun h x => h.put x.1 x.2.mesh x.2) h).get role mesh =
      (lastOf records role mesh).or (h.get role mesh) := by
  induction records generalizing h with
  | nil => rfl
  | cons x xs ih =>
    have hput := @get_put h x.1 role x.2.mesh mesh x.2
    rw [List.foldl_cons, ih, hput]
    unfold lastOf ofSlot RoleRecord.slot
    by_cases hs : heldUnder x.1 x.2.mesh = heldUnder role mesh
    · simp only [hs, decide_true, List.filter_cons_of_pos, List.map_cons, if_true, List.getLast?_cons]
      cases (xs.filter _).map Prod.snd |>.getLast? <;> simp
    · simp [hs]

/-- The record is neither the one held of its role nor supersedes it. -/
def Stale (h : HeldRoles) (x : RoleRecord) : Prop := ∃ held, h.get x.1 x.2.mesh = some held ∧ ¬ x.2.Covers held

theorem isRefused_decided_iff {x : RoleRecord} : (h.decided x).isRefused = true ↔ Stale h x := by
  unfold decided Stale Primary.Covers
  cases hheld : h.get x.1 x.2.mesh with
  | none => simp [RoleTaken.isRefused]
  | some held =>
    simp only [Option.some.injEq, exists_eq_left']
    split
    next heq => simp [RoleTaken.isRefused, heq]
    next hne =>
      split
      next hs => simp [RoleTaken.isRefused, hs]
      next hs => simp [RoleTaken.isRefused, hs, Ne.symm hne]

theorem takeTogether_eq (records : List RoleRecord) :
    ((∃ x ∈ records, Stale h x) ∧ (h.takeTogether records).1 = h) ∨
      ((∀ x ∈ records, ¬ Stale h x) ∧
        (h.takeTogether records).1 = records.foldl (fun h x => h.put x.1 x.2.mesh x.2) h) := by
  unfold takeTogether
  dsimp only
  split
  next hany =>
    rw [List.any_map, List.any_eq_true] at hany
    obtain ⟨x, hx, href⟩ := hany
    exact Or.inl ⟨⟨x, hx, isRefused_decided_iff.mp href⟩, rfl⟩
  next hnone =>
    rw [List.any_map, List.any_eq_true] at hnone
    exact Or.inr ⟨fun x hx hs => hnone ⟨x, hx, isRefused_decided_iff.mpr hs⟩, rfl⟩

/-- An update changes nothing, or every role it names ends with a record standing over the one held before
and over each of its own of that role. -/
def TakenTogether (h : HeldRoles) (records : List RoleRecord) : Prop :=
  (∀ role mesh, (h.takeTogether records).1.get role mesh = h.get role mesh) ∨
    ∀ x ∈ records, ∃ r, (h.takeTogether records).1.get x.1 x.2.mesh = some r ∧
      (∀ held, h.get x.1 x.2.mesh = some held → r.Covers held) ∧ ∀ y ∈ records, y.slot = x.slot → r.Covers y.2

/-- A record of the update is stale; or the last of each role is the one held; or the last of each role
stands over the update's others of it. -/
def LastStands (h : HeldRoles) (records : List RoleRecord) : Prop :=
  (∃ x ∈ records, Stale h x) ∨ (∀ x ∈ records, lastOf records x.1 x.2.mesh = h.get x.1 x.2.mesh) ∨
    ∀ x ∈ records, ∀ r, lastOf records x.1 x.2.mesh = some r → ∀ y ∈ records, y.slot = x.slot → r.Covers y.2

theorem lastOf_mem {records : List RoleRecord} {r : Primary} (hlast : lastOf records role mesh = some r) :
    ∃ x ∈ records, x.slot = heldUnder role mesh ∧ x.2 = r :=
  mem_ofSlot.mp (List.mem_of_getLast? hlast)

theorem exists_lastOf {records : List RoleRecord} {x : RoleRecord} (hx : x ∈ records) :
    ∃ r, lastOf records x.1 x.2.mesh = some r := by
  have hmem : x.2 ∈ ofSlot records x.1 x.2.mesh := mem_ofSlot.mpr ⟨x, hx, rfl, rfl⟩
  have hne : ofSlot records x.1 x.2.mesh ≠ [] := List.ne_nil_of_mem hmem
  exact ⟨_, List.getLast?_eq_some_getLast hne⟩

theorem lastOf_eq_none {records : List RoleRecord} (h : ∀ x ∈ records, x.slot ≠ heldUnder role mesh) :
    lastOf records role mesh = none := by
  cases hlast : lastOf records role mesh with
  | none => rfl
  | some r =>
    obtain ⟨x, hx, hs, -⟩ := lastOf_mem hlast
    exact absurd hs (h x hx)

theorem takenTogether_iff (records : List RoleRecord) : TakenTogether h records ↔ LastStands h records := by
  unfold TakenTogether LastStands
  rcases h.takeTogether_eq records with ⟨hstale, htaken⟩ | ⟨hfresh, htaken⟩
  · rw [htaken]
    exact iff_of_true (Or.inl fun _ _ => rfl) (Or.inl hstale)
  · have hnone : ¬ ∃ x ∈ records, Stale h x := fun ⟨x, hx, hs⟩ => hfresh x hx hs
    simp only [htaken, get_putAll, hnone, false_or]
    refine or_congr ?_ ?_
    · constructor
      · intro hsame x hx
        obtain ⟨r, hr⟩ := exists_lastOf hx
        have hread := hsame x.1 x.2.mesh
        rw [hr, Option.some_or] at hread
        rw [hr, hread]
      · intro hlast role mesh
        by_cases hnamed : ∃ x ∈ records, x.slot = heldUnder role mesh
        · obtain ⟨x, hx, hs⟩ := hnamed
          have hslot : lastOf records role mesh = lastOf records x.1 x.2.mesh := by
            unfold lastOf
            rw [ofSlot_slot hs.symm]
          rw [hslot, hlast x hx, get_eq_of_slot hs, Option.or_self]
        · rw [lastOf_eq_none fun x hx hs => hnamed ⟨x, hx, hs⟩, Option.none_or]
    · constructor
      · intro htogether x hx r hr
        obtain ⟨r', hr', -, hcovers⟩ := htogether x hx
        rw [hr, Option.some_or] at hr'
        cases Option.some.inj hr'
        exact hcovers
      · intro hlast x hx
        obtain ⟨r, hr⟩ := exists_lastOf hx
        refine ⟨r, by rw [hr, Option.some_or], fun held hheld => ?_, hlast x hx r hr⟩
        obtain ⟨y, hy, hs, rfl⟩ := lastOf_mem hr
        by_contra hstale
        refine hfresh y hy ⟨held, ?_, hstale⟩
        rw [← hheld]
        exact get_eq_of_slot hs

/-- Views given the same records one by one converge and never go back; records given together are taken as
one exactly when the last of each role stands. -/
theorem primary_records_converge (h : HeldRoles) (xs ys records : List RoleRecord) :
    (OnePerRevision xs → (∀ x, x ∈ xs ↔ x ∈ ys) →
      ∀ role mesh, (empty.takeAll xs).get role mesh = (empty.takeAll ys).get role mesh) ∧
    (∀ (role : PrimaryRole) (mesh : String) (held : Primary), (h.takeAll xs).get role mesh = some held →
      ∃ r, (h.takeAll (xs ++ ys)).get role mesh = some r ∧ held.revision ≤ r.revision) ∧
    (TakenTogether h records ↔ LastStands h records) := by
  refine ⟨fun hone hsame role mesh => takeAll_converges hone hsame, fun role mesh held hheld => ?_,
    takenTogether_iff records⟩
  have happend : h.takeAll (xs ++ ys) = (h.takeAll xs).takeAll ys := List.foldl_append
  rw [happend]
  exact takeAll_forward hheld

/-- Two fabric primaries taken in either order, and an update of one role. -/
theorem primary_records_converge_fabric :
    (empty.takeAll [(.fabricPrimary, ⟨"m1", "n2", "b2", 1⟩), (.fabricPrimary, ⟨"m2", "n1", "b1", 1⟩)]).get
        .fabricPrimary "" = some ⟨"m2", "n1", "b1", 1⟩ ∧
      (empty.takeAll [(.fabricPrimary, ⟨"m2", "n1", "b1", 1⟩), (.fabricPrimary, ⟨"m1", "n2", "b2", 1⟩)]).get
        .fabricPrimary "" = some ⟨"m2", "n1", "b1", 1⟩ := by
  have hfirst : (empty.takeAll [(.fabricPrimary, ⟨"m1", "n2", "b2", 1⟩),
      (.fabricPrimary, ⟨"m2", "n1", "b1", 1⟩)]).get .fabricPrimary "" = some ⟨"m2", "n1", "b1", 1⟩ := by
    decide +kernel
  refine ⟨hfirst, ?_⟩
  rw [← hfirst]
  refine ((primary_records_converge empty _ _ []).1 ?_ ?_ _ _).symm
  · decide
  · intro x
    simp [or_comm]

/-- An update names a mesh's primary twice, the earlier revision last. -/
def laterThenEarlier : List RoleRecord :=
  [(.meshPrimary, ⟨"m1", "n1", "b1", 3⟩), (.meshPrimary, ⟨"m1", "n2", "b2", 2⟩)]

def heldFirst : HeldRoles := empty.put .meshPrimary "m1" ⟨"m1", "n3", "b3", 1⟩

theorem update_ends_with_the_earlier :
    (heldFirst.takeTogether laterThenEarlier).1.get .meshPrimary "m1" = some ⟨"m1", "n2", "b2", 2⟩ ∧
      ¬ TakenTogether heldFirst laterThenEarlier := by
  have hends : (heldFirst.takeTogether laterThenEarlier).1.get .meshPrimary "m1" = some ⟨"m1", "n2", "b2", 2⟩ := by
    decide +kernel
  refine ⟨hends, ?_⟩
  rintro (hsame | htogether)
  · have hread := hsame .meshPrimary "m1"
    rw [hends] at hread
    revert hread
    decide +kernel
  · obtain ⟨r, hr, -, hcovers⟩ := htogether (.meshPrimary, ⟨"m1", "n2", "b2", 2⟩) (by decide)
    have hlast : r = ⟨"m1", "n2", "b2", 2⟩ := Option.some.inj (hr.symm.trans hends)
    have hcovered := hcovers (.meshPrimary, ⟨"m1", "n1", "b1", 3⟩) (by decide) rfl
    rw [hlast] at hcovered
    revert hcovered
    decide

end HeldRoles

end DistributedMesh
