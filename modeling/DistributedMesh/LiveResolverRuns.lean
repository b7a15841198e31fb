import DistributedMesh.LiveResolver
import Mathlib.Data.List.Induction

namespace DistributedMesh.Resolver

open Std (ExtTreeMap ExtTreeSet)
open KeyedMaps LexCode

namespace Live

/-- What every operation keeps of what the resolver holds. -/
structure Sound (l : Live) : Prop where
  keyed : Keyed ResolvedNode.nodeId l.nodes
  paths : ∀ path, l.HeldRight path
  lineage : ∀ id n, l.nodes[id]? = some n → l.isSuperseded id n.incarnation = false
  gone : ∀ id : String, id ∈ l.deleted → l.nodes[id]? = none
  stops : ∀ id incarnation, (id, incarnation) ∈ l.stopped → ∃ n, l.nodes[id]? = some n ∧ n.incarnation = incarnation

variable {l : Live} {retention now : Nat} {id incarnation : String} {birth : ResolvedNode}

theorem sound_empty : empty.Sound := by
  refine ⟨Keyed.empty, fun path => ⟨fun id hid => ?_, fun _ id => ?_⟩, fun id n hn => ?_, fun id hid => ?_, fun id i hi => ?_⟩
  · simp [empty] at hid
  · simp [occupant, empty]
  · simp [empty] at hn
  · simp [empty] at hid
  · simp [empty] at hi

theorem mem_of_mem_expire (h : id ∈ (l.expire retention now).deleted) : id ∈ l.deleted :=
  ExtTreeMap.mem_of_mem_filter h

theorem Sound.expire (h : l.Sound) : (l.expire retention now).Sound :=
  ⟨h.keyed, fun path => (h.paths path).of_agree rfl fun _ => rfl, h.lineage,
    fun id hid => h.gone id (mem_of_mem_expire hid), h.stops⟩

section Take

variable {applied : Applied}

/-- The birth and the id of its path, before the path is reheld. -/
def placed (l : Live) (birth : ResolvedNode) : Live :=
  { l with
    nodes := l.nodes.insert birth.nodeId birth
    byPath := l.byPath.insertIfNew birth.location birth.nodeId }

/-- What is held as a birth is taken. -/
def taking (l : Live) (birth : ResolvedNode) (applied : Applied) : Live :=
  ((l.unstop birth.nodeId).endOld birth.nodeId applied).placed birth

theorem taking_nodes : (l.taking birth applied).nodes = l.nodes.insert birth.nodeId birth := by
  cases applied <;> rfl

theorem taking_byPath : (l.taking birth applied).byPath = l.byPath.insertIfNew birth.location birth.nodeId := by
  cases applied <;> rfl

theorem taking_stopped : (l.taking birth applied).stopped = (l.unstop birth.nodeId).stopped := by
  cases applied <;> rfl

theorem take_eq : l.take birth applied =
    match ((l.nodes[birth.nodeId]?).map ResolvedNode.location).filter (· ≠ birth.location) with
    | some old => ((l.taking birth applied).rehold birth.location).rehold old
    | none => (l.taking birth applied).rehold birth.location := by
  cases applied <;> rfl

/-- Taking a birth changes who is live at no path but its own and the one it leaves. -/
theorem occupant_taking (hkeyed : Keyed ResolvedNode.nodeId l.nodes) {q : PathName} (hq : q ≠ birth.location)
    (hleft : ∀ held, l.nodes[birth.nodeId]? = some held → held.location ≠ q) (i : String) :
    (l.taking birth applied).occupant q i = l.occupant q i := by
  have hstopped : ∀ n : ResolvedNode, (l.taking birth applied).isStopped n = (l.unstop birth.nodeId).isStopped n := by
    intro n
    rw [isStopped, taking_stopped]
    rfl
  refine Option.ext fun n => ?_
  rw [occupant_eq_some, occupant_eq_some, hstopped, isStopped_unstop, taking_nodes, getElem?_insert_eq]
  by_cases hi : birth.nodeId = i
  · subst hi
    rw [if_pos rfl]
    constructor
    · rintro ⟨hn, hloc, -⟩
      cases hn
      exact absurd hloc.symm hq
    · rintro ⟨hn, hloc, -⟩
      exact absurd hloc (hleft n hn)
  · rw [if_neg hi]
    refine and_congr_right fun hn => ?_
    have hid : n.nodeId ≠ birth.nodeId := by
      rw [hkeyed i n hn]
      exact fun heq => hi heq.symm
    simp [hid]

theorem keyed_taking (hkeyed : Keyed ResolvedNode.nodeId l.nodes) :
    Keyed ResolvedNode.nodeId (l.taking birth applied).nodes := by
  rw [taking_nodes]
  exact hkeyed.insert birth

theorem heldRight_taking (h : l.Sound) {q : PathName} (hq : q ≠ birth.location)
    (hleft : ∀ held, l.nodes[birth.nodeId]? = some held → held.location ≠ q) : (l.taking birth applied).HeldRight q := by
  refine (h.paths q).of_agree ?_ (occupant_taking h.keyed hq hleft)
  rw [taking_byPath, ExtTreeMap.getElem?_insertIfNew]
  have hne : ¬ pathNameCode.cmp birth.location q = .eq := by
    rw [Std.LawfulEqCmp.compare_eq_iff_eq]
    exact hq.symm
  rw [if_neg fun hc => hne hc.1]

theorem heldRight_take (h : l.Sound) (q : PathName) : (l.take birth applied).HeldRight q := by
  have hkeyed : Keyed ResolvedNode.nodeId (l.taking birth applied).nodes := keyed_taking h.keyed
  rw [take_eq]
  cases hgave : ((l.nodes[birth.nodeId]?).map ResolvedNode.location).filter (· ≠ birth.location) with
  | some old =>
    obtain ⟨hold, -⟩ := Option.filter_eq_some_iff.mp hgave
    obtain ⟨held, hheld, hloc⟩ := Option.map_eq_some_iff.mp hold
    refine HeldRight.rehold hkeyed fun hqold => HeldRight.rehold hkeyed fun hq => heldRight_taking h hq ?_
    intro held' hheld'
    rw [hheld] at hheld'
    cases hheld'
    rw [hloc]
    exact hqold.symm
  | none =>
    refine HeldRight.rehold hkeyed fun hq => heldRight_taking h hq fun held hheld hloc => ?_
    rw [hheld, Option.map_some, Option.filter_some] at hgave
    split at hgave
    next => cases hgave
    next hsame =>
      simp only [ne_eq, decide_not, Bool.not_eq_eq_eq_not, Bool.not_true, decide_eq_false_iff_not, not_not] at hsame
      exact hq (hloc.symm.trans hsame)

theorem isSuperseded_taking {i j : String} : (l.taking birth applied).isSuperseded i j = true ↔
    (i = birth.nodeId ∧ applied = .restarted j) ∨ l.isSuperseded i j = true := by
  cases applied with
  | restarted old =>
    have hrestarted : ((l.unstop birth.nodeId).supersede birth.nodeId old).isSuperseded i j = true ↔
        i = birth.nodeId ∧ j = old ∨ (l.unstop birth.nodeId).isSuperseded i j = true := isSuperseded_supersede
    refine Iff.trans ?_ (hrestarted.trans ?_)
    · exact Iff.rfl
    · simp only [Applied.restarted.injEq, @eq_comm _ old j]
      exact Iff.rfl
  | _ =>
    constructor
    · exact fun h => .inr h
    · rintro (⟨-, h⟩ | h)
      · cases h
      · exact h

theorem take_frame (l : Live) (birth : ResolvedNode) (applied : Applied) :
    (l.take birth applied).nodes = (l.taking birth applied).nodes ∧
    (l.take birth applied).superseded = (l.taking birth applied).superseded ∧
    (l.take birth applied).deleted = l.deleted ∧ (l.take birth applied).stopped = (l.taking birth applied).stopped ∧
    (l.take birth applied).exited = (l.taking birth applied).exited ∧ (l.take birth applied).primaries = l.primaries := by
  rw [take_eq]
  split
  next => cases applied <;> exact ⟨rfl, rfl, rfl, rfl, rfl, rfl⟩
  next => cases applied <;> exact ⟨rfl, rfl, rfl, rfl, rfl, rfl⟩

theorem Sound.take (h : l.Sound) (hdeleted : birth.nodeId ∉ l.deleted)
    (hfresh : l.isSuperseded birth.nodeId birth.incarnation = false)
    (hold : applied ≠ .restarted birth.incarnation) : (l.take birth applied).Sound := by
  obtain ⟨hnodes, hsuperseded, hdel, hstop, -, -⟩ := take_frame l birth applied
  refine ⟨?_, heldRight_take h, fun id n hn => ?_, fun id hid => ?_, fun id i hi => ?_⟩
  · rw [hnodes]
    exact keyed_taking h.keyed
  · rw [Bool.eq_false_iff]
    intro hsup
    have hsup : (l.taking birth applied).isSuperseded id n.incarnation = true := by
      rw [isSuperseded, ← hsuperseded]
      exact hsup
    rw [hnodes, taking_nodes, getElem?_insert_eq] at hn
    rw [isSuperseded_taking] at hsup
    split at hn
    next heq =>
      cases hn
      subst heq
      rcases hsup with ⟨-, hrestarted⟩ | hsup
      · exact hold hrestarted
      · rw [hfresh] at hsup
        cases hsup
    next hne =>
      rcases hsup with ⟨heq, -⟩ | hsup
      · exact hne heq.symm
      · rw [h.lineage id n hn] at hsup
        cases hsup
  · rw [hdel] at hid
    rw [hnodes, taking_nodes, getElem?_insert_eq]
    split
    next heq => exact absurd (heq ▸ hid) hdeleted
    next => exact h.gone id hid
  · rw [hstop, taking_stopped, mem_unstop] at hi
    obtain ⟨n, hn, hinc⟩ := h.stops id i hi.1
    refine ⟨n, ?_, hinc⟩
    rw [hnodes, taking_nodes, getElem?_insert_eq, if_neg (Ne.symm hi.2)]
    exact hn

end Take

section Calls

variable {supersedes : Option String} {path : PathName}

theorem judge_restarted {old : String} (h : l.judge birth supersedes = .restarted old) :
    old ≠ birth.incarnation ∧ ∃ held, l.nodes[birth.nodeId]? = some held ∧ held.incarnation = old := by
  simp only [judge] at h
  split at h
  next => cases h
  next held hheld =>
    split at h
    next => cases h
    next =>
      split at h
      next => split at h <;> cases h
      next hne =>
        split at h
        next =>
          cases h
          exact ⟨hne, held, hheld, rfl⟩
        next => cases h

theorem judge_ne_deleted : l.judge birth supersedes ≠ .deleted := by
  intro h
  simp only [judge] at h
  repeat' split at h
  all_goals cases h

/-- What applying a birth can do: nothing beside the expiry, or the birth is taken. -/
theorem apply_cases (l : Live) (retention now : Nat) (birth : ResolvedNode) (supersedes : Option String) :
    (∃ a, l.apply retention now birth supersedes = (l.expire retention now, a) ∧ a.moves = false) ∨
    ∃ a, l.apply retention now birth supersedes = ((l.expire retention now).take birth a, a) ∧ a.moves = true ∧
      birth.nodeId ∉ (l.expire retention now).deleted ∧
      (l.expire retention now).isSuperseded birth.nodeId birth.incarnation = false ∧
      (l.expire retention now).judge birth supersedes = a := by
  simp only [apply]
  split
  next => exact .inl ⟨_, rfl, rfl⟩
  next hdeleted =>
    split
    next => exact .inl ⟨_, rfl, rfl⟩
    next hfresh =>
      have hfresh : (l.expire retention now).isSuperseded birth.nodeId birth.incarnation = false := by
        simpa using hfresh
      cases hjudge : (l.expire retention now).judge birth supersedes with
      | refused why => exact .inl ⟨_, rfl, rfl⟩
      | unchanged => exact .inl ⟨_, rfl, rfl⟩
      | deleted => exact absurd hjudge judge_ne_deleted
      | joined => exact .inr ⟨_, rfl, rfl, hdeleted, hfresh, rfl⟩
      | updated => exact .inr ⟨_, rfl, rfl, hdeleted, hfresh, rfl⟩
      | restarted old => exact .inr ⟨_, rfl, rfl, hdeleted, hfresh, rfl⟩

theorem Sound.apply (h : l.Sound) : (l.apply retention now birth supersedes).1.Sound := by
  obtain ⟨a, heq, -⟩ | ⟨a, heq, -, hdeleted, hfresh, hjudge⟩ := apply_cases l retention now birth supersedes
  · rw [heq]
    exact h.expire
  · rw [heq]
    refine h.expire.take hdeleted hfresh fun hrestarted => ?_
    rw [hrestarted] at hjudge
    exact (judge_restarted hjudge).1 rfl

/-- What is held once a node is gone, before its paths are reheld. -/
def leaving (l : Live) (now : Nat) (id incarnation : String) : Live :=
  let gone := ({ l with deleted := l.deleted.insert id now }.unstop id).supersede id incarnation
  { gone with nodes := gone.nodes.erase id }

/-- What a departure can do: nothing beside the expiry, or the node is gone. -/
theorem depart_cases (l : Live) (retention now : Nat) (id incarnation : String) (path : PathName) :
    (l.depart retention now id incarnation path = (l.expire retention now, .unchanged) ∧
      id ∈ (l.expire retention now).deleted) ∨
    (l.depart retention now id incarnation path =
      (match l.nodes[id]? with
        | some held => (((l.expire retention now).leaving now id incarnation).vacate id held.location).vacate id path
        | none => ((l.expire retention now).leaving now id incarnation).vacate id path, .deleted) ∧
      id ∉ (l.expire retention now).deleted) := by
  simp only [depart]
  split
  next hmem => exact .inl ⟨rfl, hmem⟩
  next hmem =>
    refine .inr ⟨?_, hmem⟩
    have hnodes : ((({ l.expire retention now with
      deleted := (l.expire retention now).deleted.insert id now }).unstop id).supersede id incarnation).nodes = l.nodes := rfl
    rw [hnodes]
    cases l.nodes[id]? <;> rfl

theorem occupant_leaving (hkeyed : Keyed ResolvedNode.nodeId l.nodes) {q : PathName}
    (hleft : ∀ held, l.nodes[id]? = some held → held.location ≠ q) (i : String) :
    (l.leaving now id incarnation).occupant q i = l.occupant q i := by
  have hstopped : ∀ n : ResolvedNode, (l.leaving now id incarnation).isStopped n = (l.unstop id).isStopped n :=
    fun _ => rfl
  have hnodes : (l.leaving now id incarnation).nodes = l.nodes.erase id := rfl
  refine Option.ext fun n => ?_
  rw [occupant_eq_some, occupant_eq_some, hstopped, isStopped_unstop, hnodes, getElem?_erase_eq]
  by_cases hi : id = i
  · subst hi
    rw [if_pos rfl]
    constructor
    · rintro ⟨hn, -⟩
      cases hn
    · rintro ⟨hn, hloc, -⟩
      exact absurd hloc (hleft n hn)
  · rw [if_neg hi]
    refine and_congr_right fun hn => ?_
    have hid : n.nodeId ≠ id := by
      rw [hkeyed i n hn]
      exact fun heq => hi heq.symm
    simp [hid]

theorem keyed_leaving (h : Keyed ResolvedNode.nodeId l.nodes) :
    Keyed ResolvedNode.nodeId (l.leaving now id incarnation).nodes := h.erase id

/-- What is held, but for the paths, once a node is gone. -/
theorem Sound.leaving_rest (h : l.Sound) {m : Live} (hpaths : ∀ q, m.HeldRight q)
    (hm : { m with byPath := l.byPath } = { l.leaving now id incarnation with byPath := l.byPath }) : m.Sound := by
  have hnodes : m.nodes = l.nodes.erase id := congrArg Live.nodes hm
  have hsuperseded : m.superseded = (l.supersede id incarnation).superseded := by
    have hfield := congrArg Live.superseded hm
    exact hfield
  have hdeleted : m.deleted = l.deleted.insert id now := congrArg Live.deleted hm
  have hstopped : m.stopped = (l.unstop id).stopped := by
    have hfield := congrArg Live.stopped hm
    exact hfield
  refine ⟨?_, hpaths, fun i n hn => ?_, fun i hi => ?_, fun i j hij => ?_⟩
  · rw [hnodes]
    exact h.keyed.erase id
  · rw [hnodes, getElem?_erase_eq] at hn
    split at hn
    next => cases hn
    next hne =>
      rw [Bool.eq_false_iff]
      intro hsup
      rw [isSuperseded, hsuperseded] at hsup
      rcases isSuperseded_supersede.mp hsup with ⟨heq, -⟩ | hsup
      · exact hne heq.symm
      · rw [h.lineage i n hn] at hsup
        cases hsup
  · rw [hnodes, getElem?_erase_eq]
    rw [hdeleted, mem_insert_map] at hi
    split
    next => rfl
    next hne => exact h.gone i (hi.resolve_left fun heq => hne heq.symm)
  · rw [hstopped, mem_unstop] at hij
    obtain ⟨n, hn, hinc⟩ := h.stops i j hij.1
    refine ⟨n, ?_, hinc⟩
    rw [hnodes, getElem?_erase_eq, if_neg (Ne.symm hij.2)]
    exact hn

theorem Sound.depart (h : l.Sound) : (l.depart retention now id incarnation path).1.Sound := by
  obtain ⟨heq, -⟩ | ⟨heq, -⟩ := depart_cases l retention now id incarnation path
  · rw [heq]
    exact h.expire
  · have hexpired : (l.expire retention now).Sound := h.expire
    have hkeyed : Keyed ResolvedNode.nodeId ((l.expire retention now).leaving now id incarnation).nodes :=
      keyed_leaving hexpired.keyed
    have hright : ∀ q, (∀ held, l.nodes[id]? = some held → held.location ≠ q) →
        ((l.expire retention now).leaving now id incarnation).HeldRight q :=
      fun q hleft => (hexpired.paths q).of_agree rfl (occupant_leaving hexpired.keyed hleft)
    rw [heq]
    cases hheld : l.nodes[id]? with
    | some held =>
      refine hexpired.leaving_rest (fun q => ?_) rfl
      refine HeldRight.vacate hkeyed fun _ => HeldRight.vacate hkeyed fun hq => hright q fun held' hheld' => ?_
      rw [hheld] at hheld'
      cases hheld'
      exact hq.symm
    | none =>
      refine hexpired.leaving_rest (fun q => HeldRight.vacate hkeyed fun _ => hright q fun held' hheld' => ?_) rfl
      rw [hheld] at hheld'
      cases hheld'

/-- What a stop can do: nothing, or the held birth is stopped and gives up its path. -/
theorem stop_cases (l : Live) (id incarnation : String) :
    l.stop id incarnation = (l, false) ∨
    ∃ n, l.nodes[id]? = some n ∧ n.incarnation = incarnation ∧ (id, incarnation) ∉ l.stopped ∧
      l.stop id incarnation = ({ l with stopped := l.stopped.insert (id, incarnation) }.vacate id n.location, true) := by
  simp only [stop]
  split
  next => exact .inl rfl
  next n hn =>
    obtain ⟨hn, hinc⟩ := Option.filter_eq_some_iff.mp hn
    split
    next => exact .inl rfl
    next hstopped => exact .inr ⟨n, hn, by simpa using hinc, hstopped, rfl⟩

theorem isStopped_insert {n : ResolvedNode} (hne : n.nodeId ≠ id) :
    { l with stopped := l.stopped.insert (id, incarnation) }.isStopped n = l.isStopped n := by
  rw [Bool.eq_iff_iff]
  simp only [isStopped, ExtTreeSet.contains_iff_mem, mem_insert_set, Prod.mk.injEq]
  exact ⟨fun h => h.resolve_left fun heq => hne heq.1, .inr⟩

theorem Sound.stop (h : l.Sound) : (l.stop id incarnation).1.Sound := by
  obtain heq | ⟨n, hn, hinc, -, heq⟩ := stop_cases l id incarnation
  · rw [heq]
    exact h
  · rw [heq]
    refine ⟨h.keyed, fun q => ?_, h.lineage, h.gone, fun i j hij => ?_⟩
    · refine HeldRight.vacate h.keyed fun hq => (h.paths q).of_agree rfl fun i => ?_
      refine Option.ext fun m => ?_
      rw [occupant_eq_some, occupant_eq_some]
      refine and_congr_right fun hm => and_congr_right fun hloc => ?_
      have hm : l.nodes[i]? = some m := hm
      have hne : m.nodeId ≠ id := by
        rw [h.keyed i m hm]
        rintro rfl
        rw [hn] at hm
        cases hm
        exact hq hloc.symm
      rw [isStopped_insert hne]
    · rcases (mem_insert_set _ _ _).mp hij with heq | hij
      · cases heq
        exact ⟨n, hn, hinc⟩
      · exact h.stops i j hij

end Calls

end Live

/-- A process's resolver: what it holds, how often it told that an answer may have changed, and the births whose
exit was read against what is held and is still to be recorded. -/
structure LiveNodeResolver where
  live : Live
  changed : Nat
  checked : List (String × String)

/-- One hold of the resolver's lock. -/
inductive Call where
  | apply (now : Nat) (birth : ResolvedNode) (supersedes : Option String)
  | depart (now : Nat) (nodeId incarnation : String) (path : PathName)
  | stop (nodeId incarnation : String)
  /-- The read of `mark_exited`. -/
  | checkExited (nodeId incarnation : String)
  /-- The write of a `mark_exited` that read the birth as held. -/
  | markExited (nodeId incarnation : String)
  | setPrimary (mesh node : Option String)

/-- The instant a call reads. -/
def Call.clock : Call → Nat
  | .apply now _ _ => now
  | .depart now _ _ _ => now
  | _ => 0

namespace LiveNodeResolver

def new : LiveNodeResolver := ⟨.empty, 0, []⟩

def ticked (r : LiveNodeResolver) (live : Live) (moves : Bool) : LiveNodeResolver :=
  { r with live := live, changed := if moves then r.changed + 1 else r.changed }

def call (retention : Nat) (r : LiveNodeResolver) : Call → LiveNodeResolver
  | .apply now birth supersedes =>
    let out := r.live.apply retention now birth supersedes
    r.ticked out.1 out.2.moves
  | .depart now id incarnation path =>
    let out := r.live.depart retention now id incarnation path
    r.ticked out.1 out.2.moves
  | .stop id incarnation =>
    let out := r.live.stop id incarnation
    r.ticked out.1 out.2
  | .checkExited id incarnation =>
    if (r.live.nodes[id]?).map ResolvedNode.incarnation = some incarnation then
      { r with checked := (id, incarnation) :: r.checked }
    else r
  | .markExited id incarnation =>
    if r.checked.contains (id, incarnation) then
      { r.ticked { r.live with exited := r.live.exited.insert (id, incarnation) } true with
        checked := r.checked.erase (id, incarnation) }
    else r
  | .setPrimary mesh node =>
    let out := r.live.setPrimary mesh node
    r.ticked out.1 out.2

/-- The resolver after a run of calls. -/
def run (retention : Nat) (r : LiveNodeResolver) (calls : List Call) : LiveNodeResolver := calls.foldl (call retention) r

variable {retention now : Nat} {r : LiveNodeResolver}

theorem sound_call (h : r.live.Sound) (c : Call) : (r.call retention c).live.Sound := by
  cases c with
  | apply now birth supersedes => exact h.apply
  | depart now id incarnation path => exact h.depart
  | stop id incarnation => exact h.stop
  | checkExited id incarnation =>
    simp only [call]
    split <;> exact h
  | markExited id incarnation =>
    simp only [call]
    split
    next => exact ⟨h.keyed, fun path => (h.paths path).of_agree rfl fun _ => rfl, h.lineage, h.gone, h.stops⟩
    next => exact h
  | setPrimary mesh node =>
    cases node <;>
      exact ⟨h.keyed, fun path => (h.paths path).of_agree rfl fun _ => rfl, h.lineage, h.gone, h.stops⟩

theorem sound_run (calls : List Call) : (new.run retention calls).live.Sound :=
  GuardedRuns.invariant_run (I := fun r : LiveNodeResolver => r.live.Sound) (fun _ c h => sound_call h c) Live.sound_empty
    calls

theorem run_append (before after : List Call) :
    r.run retention (before ++ after) = (r.run retention before).run retention after := List.foldl_append

end LiveNodeResolver

namespace Live

/-- A node that is held at the path and is not stopped. -/
def Occupied (l : Live) (path : PathName) (n : ResolvedNode) : Prop :=
  l.nodes[n.nodeId]? = some n ∧ n.location = path ∧ l.isStopped n = false

variable {l : Live} {retention now : Nat} {path : PathName}

theorem Sound.occupied (h : l.Sound) {id : String} {n : ResolvedNode} (hocc : l.occupant path id = some n) :
    l.Occupied path n := by
  obtain ⟨hn, hloc, hstopped⟩ := occupant_eq_some.mp hocc
  rw [← h.keyed id n hn] at hn
  exact ⟨hn, hloc, hstopped⟩

theorem current_ok {n m : ResolvedNode} (h : l.current n = .ok m) : m = n ∧ l.isExited n = false := by
  simp only [current] at h
  split at h
  next => cases h
  next hexited =>
    cases h
    exact ⟨rfl, by simpa using hexited⟩

/-- What a path resolves to, by its holder. -/
theorem resolveAt_currentPath (h : l.Sound) (retention now : Nat) (path : PathName) :
    (l.resolveAt retention (.currentPath path) now = .error .unknown ∧ ∀ n, ¬l.Occupied path n) ∨
    ∃ n, l.resolveAt retention (.currentPath path) now = l.current n ∧ l.Occupied path n ∧
      l.byPath[path]? = some n.nodeId := by
  cases hid : l.byPath[path]? with
  | none =>
    refine .inl ⟨by simp only [resolveAt, hid, Option.bind_none], fun n hn => ?_⟩
    have hvacant := (h.paths path).vacant hid n.nodeId
    rw [occupant_eq_some.mpr hn] at hvacant
    cases hvacant
  | some id =>
    obtain ⟨n, hocc⟩ := Option.isSome_iff_exists.mp ((h.paths path).holder id hid)
    have hnode := (occupant_eq_some.mp hocc).1
    refine .inr ⟨n, ?_, h.occupied hocc, by rw [h.keyed id n hnode]⟩
    simp only [resolveAt, hid, Option.bind_some, hnode]

/-- A resolved node is one that is held, under its own id, and has not exited. -/
theorem Sound.resolved (h : l.Sound) {target : NodeTarget} {n : ResolvedNode} (hn : l.resolveAt retention target now = .ok n) :
    l.nodes[n.nodeId]? = some n ∧ l.isExited n = false := by
  have hheld : ∀ {id : String} {m : ResolvedNode}, l.nodes[id]? = some m → l.current m = .ok n →
      l.nodes[n.nodeId]? = some n ∧ l.isExited n = false := by
    intro id m hm hcurrent
    obtain ⟨rfl, hexited⟩ := current_ok hcurrent
    rw [h.keyed id n hm]
    exact ⟨hm, hexited⟩
  have hbound : ∀ {o : Option String} {m : ResolvedNode}, (o.bind fun id => l.nodes[id]?) = some m →
      l.current m = .ok n → l.nodes[n.nodeId]? = some n ∧ l.isExited n = false := by
    intro o m hm hcurrent
    obtain ⟨id, -, hm⟩ := Option.bind_eq_some_iff.mp hm
    exact hheld hm hcurrent
  cases target with
  | exactNode id =>
    simp only [resolveAt] at hn
    split at hn
    next m hm => exact hheld hm hn
    next => split at hn <;> cases hn
  | currentPath path =>
    simp only [resolveAt] at hn
    split at hn
    next m hm => exact hbound hm hn
    next => cases hn
  | primary mesh =>
    simp only [resolveAt] at hn
    split at hn
    next m hm => exact hbound hm hn
    next => cases hn
  | endpoint endpointId addr => cases hn

end Live

namespace LiveNodeResolver

variable {retention now : Nat} {r : LiveNodeResolver}

/-- After every run, a path resolves to the live node that holds it, which has not exited, is unavailable only where the
live node that holds it exited, and is unknown exactly where no live node is at it. -/
theorem path_resolves_live (calls : List Call) (path : PathName) :
    let l := (new.run retention calls).live
    (l.resolveAt retention (.currentPath path) now = .error .unknown ↔ ∀ n, ¬l.Occupied path n) ∧
    (∀ n, l.resolveAt retention (.currentPath path) now = .ok n →
      l.byPath[path]? = some n.nodeId ∧ l.Occupied path n ∧ l.isExited n = false) ∧
    (l.resolveAt retention (.currentPath path) now = .error .unavailable →
      ∃ n, l.byPath[path]? = some n.nodeId ∧ l.Occupied path n ∧ l.isExited n = true) ∧
    l.resolveAt retention (.currentPath path) now ≠ .error .gone := by
  intro l
  have hsound : l.Sound := sound_run calls
  obtain ⟨hunknown, hnone⟩ | ⟨n, hcurrent, hocc, hholds⟩ := Live.resolveAt_currentPath hsound retention now path
  · rw [hunknown]
    refine ⟨⟨fun _ => hnone, fun _ => rfl⟩, fun n hn => ?_, fun h => ?_, fun h => ?_⟩
    · cases hn
    · cases h
    · cases h
  · rw [hcurrent, Live.current]
    split
    next hexited =>
      refine ⟨⟨fun h => ?_, fun hno => absurd hocc (hno n)⟩, fun m hm => ?_,
        fun _ => ⟨n, hholds, hocc, hexited⟩, fun h => ?_⟩
      · cases h
      · cases hm
      · cases h
    next hexited =>
      refine ⟨⟨fun h => ?_, fun hno => absurd hocc (hno n)⟩, fun m hm => ?_, fun h => ?_, fun h => ?_⟩
      · cases h
      · cases hm
        exact ⟨hholds, hocc, by simpa using hexited⟩
      · cases h
      · cases h

/-- A birth at one path of a mesh. -/
def nodeAt (id incarnation : String) : ResolvedNode :=
  ⟨"mesh1", "node", id, "mesh1.node", "1", "key-" ++ id, "addr", incarnation⟩

section Ended

/-- The birth a call ends: the old one of a restart, the one a departure names, the one an exit is recorded of. -/
def endedBirth (retention : Nat) (r : LiveNodeResolver) : Call → Option (String × String)
  | .apply now birth supersedes =>
    match (r.live.apply retention now birth supersedes).2 with
    | .restarted old => some (birth.nodeId, old)
    | _ => none
  | .depart now id incarnation path =>
    if (r.live.depart retention now id incarnation path).2 = .deleted then some (id, incarnation) else none
  | .markExited id incarnation => if r.checked.contains (id, incarnation) then some (id, incarnation) else none
  | _ => none

/-- A birth that was superseded, or has exited. -/
def Dead (id incarnation : String) (r : LiveNodeResolver) : Prop :=
  r.live.isSuperseded id incarnation = true ∨ (id, incarnation) ∈ r.live.exited

variable {id incarnation : String}

theorem superseded_take {l : Live} {birth : ResolvedNode} {applied : Applied} {i j : String} :
    (l.take birth applied).isSuperseded i j = true ↔
      (i = birth.nodeId ∧ applied = .restarted j) ∨ l.isSuperseded i j = true := by
  rw [← Live.isSuperseded_taking, Live.isSuperseded, Live.isSuperseded, (Live.take_frame _ _ _).2.1]

theorem exited_take {l : Live} (h : (id, incarnation) ∈ l.exited) (birth : ResolvedNode) (applied : Applied) :
    (id, incarnation) ∈ (l.take birth applied).exited ∨ (id = birth.nodeId ∧ applied = .restarted incarnation) := by
  rw [(Live.take_frame _ _ _).2.2.2.2.1]
  cases applied with
  | restarted old =>
    by_cases heq : (birth.nodeId, old) = (id, incarnation)
    · cases heq
      exact .inr ⟨rfl, rfl⟩
    · left
      change (id, incarnation) ∈ l.exited.erase (birth.nodeId, old)
      rw [ExtTreeSet.mem_erase, ne_eq, Std.LawfulEqCmp.compare_eq_iff_eq]
      exact ⟨heq, h⟩
  | _ => exact .inl h

/-- What a departure that is taken leaves of the births that ended. -/
theorem depart_deleted {l : Live} {now : Nat} {path : PathName}
    (h : (l.depart retention now id incarnation path).2 = .deleted) :
    (l.depart retention now id incarnation path).1.superseded = (l.supersede id incarnation).superseded ∧
      (l.depart retention now id incarnation path).1.exited = l.exited := by
  obtain ⟨heq, -⟩ | ⟨heq, -⟩ := Live.depart_cases l retention now id incarnation path
  · rw [heq] at h
    cases h
  · rw [heq]
    cases l.nodes[id]? <;> exact ⟨rfl, rfl⟩

theorem dead_ended {c : Call} (h : endedBirth retention r c = some (id, incarnation)) :
    Dead id incarnation (r.call retention c) := by
  cases c with
  | apply now birth supersedes =>
    simp only [endedBirth] at h
    split at h
    next old hold =>
      cases h
      obtain ⟨a, heq, hmoves⟩ | ⟨a, heq, -⟩ := Live.apply_cases r.live retention now birth supersedes
      · rw [heq] at hold
        subst hold
        cases hmoves
      · left
        change (r.live.apply retention now birth supersedes).1.isSuperseded _ _ = true
        rw [heq] at hold ⊢
        exact superseded_take.mpr (.inl ⟨rfl, hold⟩)
    next => cases h
  | depart now id' incarnation' path =>
    simp only [endedBirth] at h
    split at h
    next hdeleted =>
      cases h
      left
      change (r.live.depart retention now id incarnation path).1.isSuperseded _ _ = true
      rw [Live.isSuperseded, (depart_deleted hdeleted).1]
      exact Live.isSuperseded_supersede.mpr (.inl ⟨rfl, rfl⟩)
    next => cases h
  | markExited id' incarnation' =>
    simp only [endedBirth] at h
    split at h
    next hchecked =>
      cases h
      right
      simp only [call, if_pos hchecked]
      exact (mem_insert_set _ _ _).mpr (.inl rfl)
    next => cases h
  | _ => cases h

theorem dead_call (h : Dead id incarnation r) (c : Call) : Dead id incarnation (r.call retention c) := by
  cases c with
  | apply now birth supersedes =>
    change Dead id incarnation (r.ticked (r.live.apply retention now birth supersedes).1 _)
    obtain ⟨a, heq, -⟩ | ⟨a, heq, -⟩ := Live.apply_cases r.live retention now birth supersedes
    · rw [heq]
      exact h
    · rw [heq]
      rcases h with hsup | hexited
      · exact .inl (superseded_take.mpr (.inr hsup))
      · have hexited : (id, incarnation) ∈ (r.live.expire retention now).exited := hexited
        rcases exited_take hexited birth a with hexited | hrestarted
        · exact .inr hexited
        · exact .inl (superseded_take.mpr (.inl hrestarted))
  | depart now id' incarnation' path =>
    change Dead id incarnation (r.ticked (r.live.depart retention now id' incarnation' path).1 _)
    obtain ⟨heq, -⟩ | ⟨heq, -⟩ := Live.depart_cases r.live retention now id' incarnation' path
    · rw [heq]
      exact h
    · have hdeleted : (r.live.depart retention now id' incarnation' path).2 = .deleted := by rw [heq]
      obtain ⟨hsup, hexited⟩ := depart_deleted hdeleted
      rcases h with h | h
      · left
        rw [Live.isSuperseded]
        change Option.any _ ((r.live.depart retention now id' incarnation' path).1.superseded[id]?) = true
        rw [hsup]
        exact Live.isSuperseded_supersede.mpr (.inr h)
      · right
        change _ ∈ (r.live.depart retention now id' incarnation' path).1.exited
        rw [hexited]
        exact h
  | stop id' incarnation' =>
    change Dead id incarnation (r.ticked (r.live.stop id' incarnation').1 _)
    obtain heq | ⟨n, -, -, -, heq⟩ := Live.stop_cases r.live id' incarnation'
    · rw [heq]
      exact h
    · rw [heq]
      exact h
  | checkExited id' incarnation' =>
    simp only [call]
    split <;> exact h
  | markExited id' incarnation' =>
    simp only [call]
    split
    next => exact h.imp_right fun hmem => (mem_insert_set _ _ _).mpr (.inr hmem)
    next => exact h
  | setPrimary mesh node => cases node <;> exact h

/-- A birth that was superseded, that departed or whose exit was recorded is answered by no later call, whatever is
applied in between. -/
theorem ended_birth_never_resolves (before : List Call) (c : Call) (after : List Call)
    (h : endedBirth retention (new.run retention before) c = some (id, incarnation)) (target : NodeTarget) (n : ResolvedNode)
    (hn : (new.run retention (before ++ c :: after)).live.resolveAt retention target now = .ok n) :
    ¬(n.nodeId = id ∧ n.incarnation = incarnation) := by
  rintro ⟨rfl, rfl⟩
  have hsound : (new.run retention (before ++ c :: after)).live.Sound := sound_run _
  have hdead : Dead n.nodeId n.incarnation (new.run retention (before ++ c :: after)) := by
    rw [run_append]
    exact GuardedRuns.invariant_run (I := Dead n.nodeId n.incarnation) (fun _ c h => dead_call h c) (dead_ended h) after
  obtain ⟨hheld, hexited⟩ := hsound.resolved hn
  rcases hdead with hsup | hmem
  · rw [hsound.lineage _ _ hheld] at hsup
    cases hsup
  · rw [Live.isExited, Bool.eq_false_iff, ne_eq, ExtTreeSet.contains_iff_mem] at hexited
    exact hexited hmem

/-- A node restarted: its old birth, heard late, is not answered. -/
theorem restarted_birth_never_resolves :
    ¬((nodeAt "n1" "i2").nodeId = "n1" ∧ (nodeAt "n1" "i2").incarnation = "i1") :=
  @ended_birth_never_resolves 30 3 "n1" "i1" [.apply 0 (nodeAt "n1" "i1") none]
    (.apply 1 (nodeAt "n1" "i2") (some "i1")) [.apply 2 (nodeAt "n1" "i1") none] (by decide) (.exactNode "n1")
    (nodeAt "n1" "i2") (by rfl)

end Ended

section Holder

variable {path : PathName} {id : String}

theorem take_holder {l : Live} {birth : ResolvedNode} {applied : Applied} (hid : l.byPath[path]? = some id)
    (hocc : ((l.take birth applied).occupant path id).isSome) : (l.take birth applied).byPath[path]? = some id := by
  have htaking : ((l.taking birth applied).occupant path id).isSome := by
    have hsame : (l.take birth applied).occupant path id = (l.taking birth applied).occupant path id := by
      rw [Live.take_eq]
      split <;> rfl
    rwa [hsame] at hocc
  have hseated : (l.taking birth applied).byPath[path]? = some id := by
    rw [Live.taking_byPath, ExtTreeMap.getElem?_insertIfNew]
    split
    next hnew =>
      rw [Std.LawfulEqCmp.compare_eq_iff_eq] at hnew
      rw [hnew.1] at hnew
      exact absurd (mem_of_lookup hid) hnew.2
    next => exact hid
  have hkept : ∀ {m : Live} {q : PathName}, m.byPath[path]? = some id → (m.occupant path id).isSome →
      (m.rehold q).byPath[path]? = some id := by
    intro m q hm hocc
    by_cases hq : path = q
    · subst hq
      rw [Live.rehold_holder hm hocc]
      exact hm
    · rw [Live.rehold_other hq]
      exact hm
  rw [Live.take_eq]
  split
  next => exact hkept (hkept hseated htaking) htaking
  next => exact hkept hseated htaking

theorem holder_call (h : r.live.Sound) (hid : r.live.byPath[path]? = some id) (c : Call)
    (hocc : ((r.call retention c).live.occupant path id).isSome) : (r.call retention c).live.byPath[path]? = some id := by
  cases c with
  | apply now birth supersedes =>
    change (r.live.apply retention now birth supersedes).1.byPath[path]? = some id
    change ((r.live.apply retention now birth supersedes).1.occupant path id).isSome at hocc
    obtain ⟨a, heq, -⟩ | ⟨a, heq, -⟩ := Live.apply_cases r.live retention now birth supersedes
    · rw [heq]
      exact hid
    · rw [heq] at hocc ⊢
      exact take_holder (l := r.live.expire retention now) hid hocc
  | depart now id' incarnation path' =>
    change (r.live.depart retention now id' incarnation path').1.byPath[path]? = some id
    change ((r.live.depart retention now id' incarnation path').1.occupant path id).isSome at hocc
    obtain ⟨heq, -⟩ | ⟨heq, -⟩ := Live.depart_cases r.live retention now id' incarnation path'
    · rw [heq]
      exact hid
    · have hleft : (((r.live.expire retention now).leaving now id' incarnation).occupant path id).isSome := by
        rw [heq] at hocc
        cases hheld : r.live.nodes[id']? with
        | none =>
          rw [hheld] at hocc
          exact hocc
        | some held =>
          rw [hheld] at hocc
          exact hocc
      have hne : id' ≠ id := by
        rintro rfl
        have hnone : ((r.live.expire retention now).leaving now id' incarnation).occupant path id' = none := by
          change ((r.live.nodes.erase id')[id']?).filter _ = none
          rw [getElem?_erase_eq, if_pos rfl]
          rfl
        rw [hnone] at hleft
        cases hleft
      have hbase : ((r.live.expire retention now).leaving now id' incarnation).byPath[path]? = some id := hid
      rw [heq]
      cases r.live.nodes[id']? with
      | none => exact Live.vacate_holder hbase hleft hne
      | some held =>
        have hfirst := Live.vacate_holder (q := held.location) hbase hleft hne
        exact Live.vacate_holder hfirst hleft hne
  | stop id' incarnation =>
    change (r.live.stop id' incarnation).1.byPath[path]? = some id
    change ((r.live.stop id' incarnation).1.occupant path id).isSome at hocc
    obtain heq | ⟨n, hn, hinc, -, heq⟩ := Live.stop_cases r.live id' incarnation
    · rw [heq]
      exact hid
    · rw [heq] at hocc ⊢
      have hocc : ({ r.live with stopped := r.live.stopped.insert (id', incarnation) }.occupant path id).isSome := hocc
      refine Live.vacate_holder hid hocc ?_
      rintro rfl
      obtain ⟨m, hm⟩ := Option.isSome_iff_exists.mp hocc
      obtain ⟨hnode, -, hstopped⟩ := Live.occupant_eq_some.mp hm
      have hnode : r.live.nodes[id']? = some m := hnode
      rw [hn] at hnode
      cases hnode
      have hmem : (n.nodeId, n.incarnation) ∈ r.live.stopped.insert (id', incarnation) := by
        rw [h.keyed id' n hn, hinc]
        exact (mem_insert_set _ _ _).mpr (.inl rfl)
      rw [Live.isStopped, Bool.eq_false_iff, ne_eq, ExtTreeSet.contains_iff_mem] at hstopped
      exact hstopped hmem
  | checkExited id' incarnation =>
    simp only [call]
    split <;> exact hid
  | markExited id' incarnation =>
    simp only [call]
    split <;> exact hid
  | setPrimary mesh node => cases node <;> exact hid

/-- The node that holds a path keeps it, whoever else is heard there, as long as it stays live at it. -/
theorem holder_keeps_path (before after : List Call) (hid : (new.run retention before).live.byPath[path]? = some id)
    (hlive : ∀ calls, calls <+: after → ((new.run retention (before ++ calls)).live.occupant path id).isSome) :
    (new.run retention (before ++ after)).live.byPath[path]? = some id := by
  induction after using List.reverseRecOn with
  | nil =>
    rw [List.append_nil]
    exact hid
  | append_singleton after c ih =>
    have hprior := ih fun calls hcalls => hlive calls (hcalls.trans (List.prefix_append after [c]))
    have hlast := hlive (after ++ [c]) List.prefix_rfl
    rw [← List.append_assoc, run_append] at hlast ⊢
    exact holder_call (sound_run _) hprior c hlast

/-- A second node heard at a path does not take it from the first. -/
theorem holder_keeps_path_second :
    (new.run 30 ([.apply 0 (nodeAt "n2" "i2") none] ++ [.apply 1 (nodeAt "n1" "i1") none])).live.byPath[("mesh1.node", "1")]? =
      some "n2" := by
  refine holder_keeps_path _ _ (by decide) fun calls hcalls => ?_
  rcases List.prefix_cons_iff.mp hcalls with rfl | ⟨rest, rfl, hrest⟩
  · decide
  · rw [List.prefix_nil.mp hrest]
    decide

end Holder

section Retention

variable {id incarnation : String} {since : Nat}

/-- A node that departed, as long as its departure is held. -/
structure Gone (id : String) (since : Nat) (l : Live) : Prop where
  held : l.nodes[id]? = none
  departed : l.deleted[id]? = some since

theorem Gone.expire {l : Live} (h : Gone id since l) (hclock : now - since < retention) : Gone id since (l.expire retention now) := by
  refine ⟨h.held, ?_⟩
  change (l.deleted.filter _)[id]? = some since
  rw [getElem?_filter_eq, h.departed, Option.filter_some, if_pos (by simpa using hclock)]

theorem Gone.call (h : Gone id since r.live) {c : Call} (hclock : c.clock - since < retention) :
    Gone id since (r.call retention c).live := by
  cases c with
  | apply now birth supersedes =>
    change Gone id since (r.live.apply retention now birth supersedes).1
    have hgone := h.expire hclock
    obtain ⟨a, heq, -⟩ | ⟨a, heq, -, hdeleted, -⟩ := Live.apply_cases r.live retention now birth supersedes
    · rw [heq]
      exact hgone
    · rw [heq]
      have hne : birth.nodeId ≠ id := by
        rintro rfl
        exact hdeleted (mem_of_lookup hgone.departed)
      obtain ⟨hnodes, -, hdel, -⟩ := Live.take_frame (r.live.expire retention now) birth a
      refine ⟨?_, ?_⟩
      · rw [hnodes, Live.taking_nodes, getElem?_insert_eq, if_neg hne]
        exact hgone.held
      · rw [hdel]
        exact hgone.departed
  | depart now id' incarnation path =>
    change Gone id since (r.live.depart retention now id' incarnation path).1
    have hgone := h.expire hclock
    obtain ⟨heq, -⟩ | ⟨heq, hmem⟩ := Live.depart_cases r.live retention now id' incarnation path
    · rw [heq]
      exact hgone
    · have hne : id' ≠ id := by
        rintro rfl
        exact hmem (mem_of_lookup hgone.departed)
      have hleft : Gone id since ((r.live.expire retention now).leaving now id' incarnation) := by
        refine ⟨?_, ?_⟩
        · change ((r.live.expire retention now).nodes.erase id')[id]? = none
          rw [getElem?_erase_eq, if_neg hne]
          exact hgone.held
        · change ((r.live.expire retention now).deleted.insert id' now)[id]? = some since
          rw [getElem?_insert_eq, if_neg hne]
          exact hgone.departed
      rw [heq]
      cases r.live.nodes[id']? <;> exact ⟨hleft.held, hleft.departed⟩
  | stop id' incarnation =>
    change Gone id since (r.live.stop id' incarnation).1
    obtain heq | ⟨n, -, -, -, heq⟩ := Live.stop_cases r.live id' incarnation
    · rw [heq]
      exact h
    · rw [heq]
      exact ⟨h.held, h.departed⟩
  | checkExited id' incarnation =>
    simp only [LiveNodeResolver.call]
    split <;> exact h
  | markExited id' incarnation =>
    simp only [LiveNodeResolver.call]
    split
    next => exact ⟨h.held, h.departed⟩
    next => exact h
  | setPrimary mesh node => cases node <;> exact ⟨h.held, h.departed⟩

theorem gone_of_depart {l : Live} {path : PathName} (h : (l.depart retention since id incarnation path).2 = .deleted) :
    Gone id since (l.depart retention since id incarnation path).1 := by
  obtain ⟨heq, -⟩ | ⟨heq, -⟩ := Live.depart_cases l retention since id incarnation path
  · rw [heq] at h
    cases h
  · have hleft : Gone id since ((l.expire retention since).leaving since id incarnation) := by
      refine ⟨?_, ?_⟩
      · change ((l.expire retention since).nodes.erase id)[id]? = none
        rw [getElem?_erase_eq, if_pos rfl]
      · change ((l.expire retention since).deleted.insert id since)[id]? = some since
        rw [getElem?_insert_eq, if_pos rfl]
    rw [heq]
    cases l.nodes[id]? <;> exact ⟨hleft.held, hleft.departed⟩

theorem Gone.resolveAt {l : Live} (h : Gone id since l) :
    l.resolveAt retention (.exactNode id) now = .error (if now - since < retention then .gone else .unknown) := by
  simp only [Live.resolveAt, h.held, h.departed]

/-- A node that departed is gone, and judged deleted, for the whole retention, whatever is applied in it. -/
theorem departed_node_gone (before : List Call) (path : PathName) (after : List Call)
    (hdeparted : ((new.run retention before).live.depart retention since id incarnation path).2 = .deleted)
    (hclocks : ∀ c ∈ after, c.clock - since < retention) :
    let l := (new.run retention (before ++ .depart since id incarnation path :: after)).live
    (now - since < retention → l.resolveAt retention (.exactNode id) now = .error .gone ∧ l.birth retention now id = .deleted) ∧
      (retention ≤ now - since → l.resolveAt retention (.exactNode id) now = .error .unknown) := by
  intro l
  have hgone : Gone id since l := by
    have hrun : GuardedRuns.RunOk (call retention) (fun _ c => c.clock - since < retention)
        ((new.run retention before).call retention (.depart since id incarnation path)) after := by
      generalize (new.run retention before).call retention (.depart since id incarnation path) = r'
      clear hdeparted l
      induction after generalizing r' with
      | nil => trivial
      | cons c after ih =>
        exact ⟨hclocks c List.mem_cons_self, ih (fun c hc => hclocks c (List.mem_cons_of_mem _ hc)) _⟩
    have hkept := hrun.invariant (I := fun r => Gone id since r.live) (fun _ _ h hclock => h.call hclock)
      (gone_of_depart hdeparted)
    have hl : l = (after.foldl (call retention)
        ((new.run retention before).call retention (.depart since id incarnation path))).live := by
      change (new.run retention (before ++ .depart since id incarnation path :: after)).live = _
      rw [run_append]
      rfl
    rw [hl]
    exact hkept
  refine ⟨fun hnow => ?_, fun hnow => ?_⟩
  · have hresolved : l.resolveAt retention (.exactNode id) now = .error .gone := by
      rw [hgone.resolveAt, if_pos hnow]
    refine ⟨hresolved, ?_⟩
    simp only [Live.birth, hresolved]
  · rw [hgone.resolveAt, if_neg (by omega)]

/-- A restart of a node that departed is not taken in its retention. -/
theorem departed_node_gone_restarted :
    (new.run 30 ([.apply 0 (nodeAt "n1" "i1") none] ++ .depart 10 "n1" "i1" ("mesh1.node", "1") ::
      [.apply 20 (nodeAt "n1" "i2") (some "i1")])).live.resolveAt 30 (.exactNode "n1") 39 = .error .gone := by
  have hgone := @departed_node_gone 30 39 "n1" "i1" 10
    [.apply 0 (nodeAt "n1" "i1") none] ("mesh1.node", "1") [.apply 20 (nodeAt "n1" "i2") (some "i1")] (by decide)
    (by decide)
  exact (hgone.1 (by decide)).1

end Retention

section Ticks

/-- What is answered from is what was, but for departures that are past their retention at `now`. -/
structure SameAnswers (retention now : Nat) (l m : Live) : Prop where
  nodes : m.nodes = l.nodes
  byPath : m.byPath = l.byPath
  exited : m.exited = l.exited
  primaries : ∀ mesh : Option String, m.primaries[mesh]? = l.primaries[mesh]?
  departed : ∀ id : String, (m.deleted[id]?).filter (fun since => now - since < retention) =
    (l.deleted[id]?).filter fun since => now - since < retention

theorem SameAnswers.refl (l : Live) : SameAnswers retention now l l := ⟨rfl, rfl, rfl, fun _ => rfl, fun _ => rfl⟩

theorem SameAnswers.expire (l : Live) {clock : Nat} (hclock : clock ≤ now) :
    SameAnswers retention now l (l.expire retention clock) := by
  refine ⟨rfl, rfl, rfl, fun _ => rfl, fun id => ?_⟩
  change ((l.deleted.filter fun _ since => clock - since < retention)[id]?).filter _ = _
  rw [getElem?_filter_eq]
  cases l.deleted[id]? with
  | none => rfl
  | some since =>
    simp only [Option.filter_some]
    by_cases hnow : now - since < retention
    · have hbefore : clock - since < retention := by omega
      simp [hnow, hbefore]
    · split
      next => simp only [Option.filter_some]
      next =>
        rw [if_neg (by simpa using hnow)]
        rfl

theorem SameAnswers.resolveAt {l m : Live} (h : SameAnswers retention now l m) (target : NodeTarget) :
    m.resolveAt retention target now = l.resolveAt retention target now := by
  have hcurrent : m.current = l.current := by
    funext n
    rw [Live.current, Live.current, Live.isExited, Live.isExited, h.exited]
  cases target with
  | exactNode id =>
    simp only [Live.resolveAt, h.nodes, hcurrent]
    cases l.nodes[id]? with
    | some n => rfl
    | none =>
      have hdeparted := h.departed id
      cases hm : m.deleted[id]? with
      | none =>
        rw [hm] at hdeparted
        cases hl : l.deleted[id]? with
        | none => rfl
        | some since =>
          rw [hl, Option.filter_some] at hdeparted
          by_cases hnow : now - since < retention
          · simp [hnow] at hdeparted
          · simp [hnow]
      | some since =>
        rw [hm] at hdeparted
        cases hl : l.deleted[id]? with
        | none =>
          rw [hl, Option.filter_some] at hdeparted
          by_cases hnow : now - since < retention
          · simp [hnow] at hdeparted
          · simp [hnow]
        | some since' =>
          rw [hl, Option.filter_some, Option.filter_some] at hdeparted
          by_cases hnow : now - since < retention
          · by_cases hnow' : now - since' < retention
            · simp [hnow, hnow']
            · simp [hnow, hnow'] at hdeparted
          · by_cases hnow' : now - since' < retention
            · simp [hnow, hnow'] at hdeparted
            · simp [hnow, hnow']
  | currentPath path => simp only [Live.resolveAt, h.byPath, h.nodes, hcurrent]
  | primary mesh => simp only [Live.resolveAt, h.primaries, h.nodes, hcurrent]
  | endpoint endpointId addr => rfl

theorem changed_le_call (retention : Nat) (r : LiveNodeResolver) (c : Call) : r.changed ≤ (r.call retention c).changed := by
  cases c with
  | checkExited id incarnation =>
    simp only [call]
    split <;> exact Nat.le_refl _
  | markExited id incarnation =>
    simp only [call]
    split
    next => exact Nat.le_succ _
    next => exact Nat.le_refl _
  | _ =>
    simp only [call, ticked]
    split
    next => exact Nat.le_succ _
    next => exact Nat.le_refl _

theorem changed_le_run (retention : Nat) (r : LiveNodeResolver) (calls : List Call) : r.changed ≤ (r.run retention calls).changed := by
  induction calls generalizing r with
  | nil => exact Nat.le_refl _
  | cons c calls ih => exact Nat.le_trans (changed_le_call retention r c) (ih _)

theorem not_moves_of_changed {live : Live} {moves : Bool} (h : (r.ticked live moves).changed = r.changed) : moves = false := by
  cases moves with
  | false => rfl
  | true =>
    have hsucc : r.changed + 1 = r.changed := h
    omega

/-- A call that does not tick changes no answer. -/
theorem sameAnswers_call {c : Call} (hclock : c.clock ≤ now) (hsame : (r.call retention c).changed = r.changed) :
    SameAnswers retention now r.live (r.call retention c).live := by
  cases c with
  | apply clock birth supersedes =>
    have hmoves := not_moves_of_changed hsame
    change SameAnswers retention now r.live (r.live.apply retention clock birth supersedes).1
    obtain ⟨a, heq, -⟩ | ⟨a, heq, hmoved, -⟩ := Live.apply_cases r.live retention clock birth supersedes
    · rw [heq]
      exact .expire r.live hclock
    · rw [heq] at hmoves
      have hmoves : a.moves = false := hmoves
      rw [hmoved] at hmoves
      cases hmoves
  | depart clock id incarnation path =>
    have hmoves := not_moves_of_changed hsame
    change SameAnswers retention now r.live (r.live.depart retention clock id incarnation path).1
    obtain ⟨heq, -⟩ | ⟨heq, -⟩ := Live.depart_cases r.live retention clock id incarnation path
    · rw [heq]
      exact .expire r.live hclock
    · rw [heq] at hmoves
      cases hmoves
  | stop id incarnation =>
    have hmoves := not_moves_of_changed hsame
    change SameAnswers retention now r.live (r.live.stop id incarnation).1
    obtain heq | ⟨n, -, -, -, heq⟩ := Live.stop_cases r.live id incarnation
    · rw [heq]
      exact .refl r.live
    · rw [heq] at hmoves
      cases hmoves
  | checkExited id incarnation =>
    simp only [call]
    split <;> exact .refl r.live
  | markExited id incarnation =>
    simp only [call] at hsame ⊢
    split at hsame
    next =>
      have hsucc : r.changed + 1 = r.changed := hsame
      omega
    next hchecked =>
      rw [if_neg hchecked]
      exact .refl r.live
  | setPrimary mesh node =>
    have hmoves := not_moves_of_changed hsame
    cases node with
    | some id =>
      have hheld : r.live.primaries[mesh]? = some id := by simpa [Live.setPrimary] using hmoves
      refine ⟨rfl, rfl, rfl, fun role => ?_, fun _ => rfl⟩
      change (r.live.primaries.insert mesh id)[role]? = r.live.primaries[role]?
      rw [getElem?_insert_eq]
      split
      next heq => rw [← heq, hheld]
      next => rfl
    | none =>
      have hmoves : r.live.primaries.contains mesh = false := hmoves
      have hheld : r.live.primaries[mesh]? = none := by
        refine ExtTreeMap.getElem?_eq_none fun hmem => ?_
        rw [ExtTreeMap.contains_iff_mem.mpr hmem] at hmoves
        cases hmoves
      refine ⟨rfl, rfl, rfl, fun role => ?_, fun _ => rfl⟩
      change (r.live.primaries.erase mesh)[role]? = r.live.primaries[role]?
      rw [getElem?_erase_eq]
      split
      next heq => rw [← heq, hheld]
      next => rfl

/-- Every change of an answer is told: over calls that leave the count of changes as it was, every target resolves
at every later instant as it did. -/
theorem unticked_run_same_answers (calls : List Call) (hclocks : ∀ c ∈ calls, c.clock ≤ now)
    (hsame : (r.run retention calls).changed = r.changed) (target : NodeTarget) :
    (r.run retention calls).live.resolveAt retention target now = r.live.resolveAt retention target now := by
  induction calls generalizing r with
  | nil => rfl
  | cons c calls ih =>
    have hfirst := changed_le_call retention r c
    have hrest := changed_le_run retention (r.call retention c) calls
    have hsame : ((r.call retention c).run retention calls).changed = r.changed := hsame
    have hstep : (r.call retention c).changed = r.changed := by omega
    have htail := ih (r := r.call retention c) (fun c hc => hclocks c (List.mem_cons_of_mem _ hc)) (by omega)
    exact htail.trans ((sameAnswers_call (hclocks c List.mem_cons_self) hstep).resolveAt target)

/-- A birth heard again as it is held changes no answer. -/
theorem unticked_run_same_answers_again :
    let r := new.run 30 [.apply 0 (nodeAt "n1" "i1") none]
    (r.run 30 [.apply 5 (nodeAt "n1" "i1") none]).live.resolveAt 30 (.currentPath ("mesh1.node", "1")) 7 =
      r.live.resolveAt 30 (.currentPath ("mesh1.node", "1")) 7 :=
  unticked_run_same_answers [.apply 5 (nodeAt "n1" "i1") none] (by decide) (by decide) _

end Ticks

end LiveNodeResolver

end DistributedMesh.Resolver
