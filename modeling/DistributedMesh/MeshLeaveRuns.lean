import DistributedMesh.MeshLeave
import Mathlib.Data.List.Flatten

namespace DistributedMesh.MeshDelete

open Std (ExtTreeMap ExtTreeSet)
open LexCode KeyedMaps GuardedRuns
open Build (BuildStep Node StepOutcome completed operationText isNodeAdmin)
open Framing (canonical)

/-- The exact birth a record is of. -/
def MemberRecord.birth (n : MemberRecord) : String × Option String := (n.node.nodeId, n.node.incarnationId)

/-- A birth as a record has it. -/
def lifted (k : String × String) : String × Option String := (k.1, some k.2)

theorem lifted_injective : Function.Injective lifted := by
  intro a b h
  cases a
  cases b
  cases h
  rfl

theorem completed_append {steps : List BuildStep} {operation step : String} (h : completed steps operation step = true)
    (more : List BuildStep) : completed (steps ++ more) operation step = true := by
  unfold completed at h ⊢
  rw [List.any_append, h, Bool.true_or]

theorem exited_append {steps : List BuildStep} {b : RosterBirth} (h : exited steps b = true) (more : List BuildStep) :
    exited (steps ++ more) b = true := by
  rw [exited, Bool.and_eq_true] at h ⊢
  exact ⟨h.1, completed_append h.2 more⟩

theorem record_of_roster {b : RosterBirth} {n : MemberRecord} (h : b.record = .ok n) : n.birth = lifted b.birth := by
  unfold RosterBirth.record at h
  split at h
  next =>
    split at h
    next =>
      cases h
      rfl
    next => cases h
  next => cases h

/-- The delete of a birth holds every step's receipt that is read of it. -/
def finished (steps : List BuildStep) (b : RosterBirth) : Bool := exited steps b && finishedDelete steps b

namespace Leave

variable {l : Leave} {steps : List BuildStep} {b : RosterBirth} {n : MemberRecord} {admins : Bool}

theorem birth_of_recordOf (h : l.recordOf b = .ok n) : n.birth = lifted b.birth := by
  unfold recordOf at h
  split at h
  next found hfound =>
    cases h
    have heq := List.find?_some hfound
    rw [Bool.and_eq_true, beq_iff_eq, beq_iff_eq] at heq
    exact Prod.ext heq.1 heq.2
  next => exact record_of_roster h

theorem keptReceipt_eq (hnodup : (l.roster.map RosterBirth.birth).Nodup) (hb : b ∈ l.roster) (steps : List BuildStep) :
    l.keptReceipt steps b = if finished steps b then some (exitOf b) else none := by
  unfold keptReceipt finished
  rw [exitReceipts_at steps hnodup hb]
  cases exited steps b with
  | false => rfl
  | true =>
    rw [if_pos rfl, Option.filter_some]
    rfl

theorem mem_others : b ∈ l.others ↔ b ∈ l.roster ∧ b ≠ l.me := by
  rw [others, List.mem_filter, bne_iff_ne]

theorem mem_remaining (hnodup : (l.roster.map RosterBirth.birth).Nodup) :
    b ∈ l.remaining steps ↔ b ∈ l.roster ∧ b ≠ l.me ∧ finished steps b = false := by
  rw [remaining, List.mem_filter, mem_others, and_assoc]
  refine and_congr_right fun hb => and_congr_right fun _ => ?_
  rw [keptReceipt_eq hnodup hb]
  cases finished steps b <;> simp

theorem mem_tierOf : b ∈ l.tierOf steps admins ↔ b ∈ l.remaining steps ∧ isNodeAdmin b.type = admins := by
  rw [tierOf, List.mem_filter, beq_iff_eq]

/-- The births kept are those whose delete ended. -/
theorem kept_births (hnodup : (l.roster.map RosterBirth.birth).Nodup) (steps : List BuildStep) :
    (l.kept steps).map TerminalReceipt.birth =
      (l.others.filter fun b => !(l.keptReceipt steps b).isNone).map RosterBirth.birth := by
  unfold kept
  rw [List.map_filterMap, ← List.filterMap_eq_map, ← List.filterMap_eq_filter, List.filterMap_filterMap]
  refine List.filterMap_congr fun b hb => ?_
  simp only [Option.guard, keptReceipt_eq hnodup (mem_others.mp hb).1]
  cases finished steps b <;> rfl

/-- Where every birth of a tier has a record, the members are of its births. -/
theorem members_births (h : l.unrunnable steps admins = []) :
    (l.members steps admins).map MemberRecord.birth = (l.tierOf steps admins).map fun b => lifted b.birth := by
  unfold unrunnable at h
  unfold members
  generalize l.tierOf steps admins = births at h ⊢
  induction births with
  | nil => rfl
  | cons b births ih =>
    cases hrecord : l.recordOf b with
    | ok n =>
      rw [List.filterMap_cons_none (by rw [hrecord])] at h
      rw [List.filterMap_cons_some (by rw [hrecord]; rfl), List.map_cons, List.map_cons, ih h, birth_of_recordOf hrecord]
    | error refusal =>
      rw [List.filterMap_cons_some (by rw [hrecord])] at h
      cases h

theorem birth_of_member (h : n ∈ l.members steps admins) : ∃ b ∈ l.tierOf steps admins, n.birth = lifted b.birth := by
  obtain ⟨b, hb, hrecord⟩ := List.mem_filterMap.mp h
  cases hof : l.recordOf b with
  | ok m =>
    rw [hof] at hrecord
    cases hrecord
    exact ⟨b, hb, birth_of_recordOf hof⟩
  | error refusal =>
    rw [hof] at hrecord
    cases hrecord

theorem members_sublist (l : Leave) (steps : List BuildStep) (admins : Bool) :
    ((l.members steps admins).map MemberRecord.birth).Sublist ((l.tierOf steps admins).map fun b => lifted b.birth) := by
  unfold members
  generalize l.tierOf steps admins = births
  induction births with
  | nil => exact List.Sublist.refl _
  | cons b births ih =>
    cases hrecord : l.recordOf b with
    | ok n =>
      rw [List.filterMap_cons_some (by rw [hrecord]; rfl), List.map_cons, List.map_cons, birth_of_recordOf hrecord]
      exact ih.cons_cons _
    | error refusal =>
      rw [List.filterMap_cons_none (by rw [hrecord]; rfl), List.map_cons]
      exact ih.cons _

theorem others_perm (l : Leave) (steps : List BuildStep) :
    ((l.others.filter fun b => !(l.keptReceipt steps b).isNone) ++ l.tierOf steps false ++ l.tierOf steps true).Perm
      l.others := by
  have htiers : (l.tierOf steps false ++ l.tierOf steps true).Perm (l.remaining steps) := by
    have hsplit := List.filter_append_perm (fun b => isNodeAdmin b.type == false) (l.remaining steps)
    have hother : ∀ b : RosterBirth, (!(isNodeAdmin b.type == false)) = (isNodeAdmin b.type == true) := by
      intro b
      cases isNodeAdmin b.type <;> rfl
    simp only [hother] at hsplit
    exact hsplit
  rw [List.append_assoc]
  refine (htiers.append_left _).trans (List.perm_append_comm.trans ?_)
  exact List.filter_append_perm (fun b => (l.keptReceipt steps b).isNone) l.others

theorem tiers_nodup (hnodup : (l.roster.map RosterBirth.birth).Nodup) (steps : List BuildStep) :
    ((l.tierOf steps false ++ l.tierOf steps true).map fun b => lifted b.birth).Nodup := by
  have hothers : (l.others.map RosterBirth.birth).Nodup := hnodup.sublist (List.filter_sublist.map _)
  have hall := ((l.others_perm steps).map RosterBirth.birth).nodup_iff.mpr hothers
  rw [List.append_assoc, List.map_append] at hall
  have htiers := (List.nodup_append.mp hall).2.1.map lifted_injective
  rwa [List.map_map] at htiers

end Leave

/-- What a shutdown that answers a receipt has recorded, and whose receipt it answers. -/
def deletedAs (steps : List BuildStep) (n : MemberRecord) (t : TerminalReceipt) : Bool :=
  (DeleteStep.order.all fun step => deleteCompleted steps n.node.nodeId step) && n.birth == lifted t.birth

/-- A shutdown that answers a receipt has recorded the birth's own delete complete, and the receipt is the birth's. -/
def Run.sound (r : Run) : Move → Bool
  | .answers i (.ok t) =>
    match r.phase with
    | .tier _ _ members =>
      match members[i]? with
      | some (n, none) => deletedAs r.steps n t
      | _ => true
    | _ => true
  | _ => true

/-- The write of the manifest's event leaves nothing of it where it answers an error. -/
def Move.clean : Move → Bool
  | .writes (.refused _ left) => left = .nothing
  | _ => true

namespace Phase

/-- The tiers that were reached. -/
def reached : Phase → List Bool
  | .tier admins _ _ => if admins then [false, true] else [false]
  | .ended (.error (.tierIncomplete admins _)) => if admins then [false, true] else [false]
  | .ended (.error (.notOfRoster ..)) => []
  | .ended (.error (.unreadable ..)) => []
  | _ => [false, true]

/-- The tiers every birth of which exited. -/
def behind : Phase → List Bool
  | .tier admins _ _ => if admins then [false] else []
  | .ended (.error (.tierIncomplete admins _)) => if admins then [false] else []
  | .ended (.error (.notOfRoster ..)) => []
  | .ended (.error (.unreadable ..)) => []
  | _ => [false, true]

theorem reached_of_behind {p : Phase} {admins : Bool} (h : admins ∈ p.behind) : admins ∈ p.reached := by
  unfold behind at h
  unfold reached
  split at h <;> simp_all

theorem behind_of_reached {p : Phase} (h : true ∈ p.reached) : false ∈ p.behind := by
  unfold reached at h
  unfold behind
  split at h
  next admins _ _ => cases admins <;> simp_all
  next admins _ => cases admins <;> simp_all
  next => cases h
  next => cases h
  next => simp_all

theorem reached_sublist (p : Phase) : p.reached.Sublist [false, true] := by
  unfold reached
  split
  next admins _ _ => cases admins <;> decide
  next admins _ => cases admins <;> decide
  next => exact List.nil_sublist _
  next => exact List.nil_sublist _
  next => exact List.Sublist.refl _

end Phase

/-- A shutdown answered the birth's receipt, its delete recorded. -/
def Run.Exited (r : Run) (answer : MemberRecord × TerminalReceipt) : Prop :=
  (answer.1, .ok answer.2) ∈ r.answered ∧ deletedAs r.steps answer.1 answer.2 = true

/-- Every birth of the tier ran, and each answered its receipt. -/
structure Leave.Passed (l : Leave) (r : Run) (admins : Bool) (answers : List (MemberRecord × TerminalReceipt)) : Prop where
  runnable : l.unrunnable r.read admins = []
  members : answers.map Prod.fst = l.members r.read admins
  exited : ∀ answer ∈ answers, r.Exited answer

/-- What holds of the member workflows as they run. -/
structure Leave.Holds (l : Leave) (r : Run) : Prop where
  grows : ∃ more, r.steps = r.read ++ more
  started : r.started = r.phase.reached.flatMap (l.members r.read)
  behind : ∃ exits : Bool → List (MemberRecord × TerminalReceipt),
    (∀ admins ∈ r.phase.behind, l.Passed r admins (exits admins)) ∧
    r.receipts = l.kept r.read ++ r.phase.behind.flatMap fun admins => (exits admins).map Prod.snd
  tier : ∀ admins failed members, r.phase = .tier admins failed members →
    failed = l.unrunnable r.read admins ∧ members.map Prod.fst = l.members r.read admins ∧
      ∀ m ∈ members, ∀ t, m.2 = some (.ok t) → r.Exited (m.1, t)
  manifest : ∀ m, (r.phase = .recording m ∨ r.phase = .ended (.ok m)) → m = l.manifest r.receipts
  recorded : ∀ m, r.phase = .ended (.ok m) → l.exitStep ∈ r.steps

theorem deletedAs_append {steps : List BuildStep} {n : MemberRecord} {t : TerminalReceipt} (h : deletedAs steps n t = true)
    (more : List BuildStep) : deletedAs (steps ++ more) n t = true := by
  rw [deletedAs, Bool.and_eq_true, List.all_eq_true] at h ⊢
  exact ⟨fun step hstep => completed_append (h.1 step hstep) more, h.2⟩

/-- An exit stays one as the answers and the steps grow. -/
theorem Run.Exited.later {r after : Run} {answer : MemberRecord × TerminalReceipt} (h : r.Exited answer)
    (hanswered : ∀ a ∈ r.answered, a ∈ after.answered) {more : List BuildStep} (hsteps : after.steps = r.steps ++ more) :
    after.Exited answer := by
  refine ⟨hanswered _ h.1, ?_⟩
  rw [hsteps]
  exact deletedAs_append h.2 more

/-- Where every member answered and none failed, each answered a receipt. -/
theorem exits_of_answers {members : List (MemberRecord × Option Answer)} (hall : (members.all fun m => m.2.isSome) = true)
    (hnone : (answersOf members).filterMap failureOf = []) :
    ∃ exits : List (MemberRecord × TerminalReceipt), exits.map Prod.fst = members.map Prod.fst ∧
      ((answersOf members).filterMap fun m => m.2.toOption) = exits.map Prod.snd ∧
      ∀ exit ∈ exits, ∃ m ∈ members, m.1 = exit.1 ∧ m.2 = some (.ok exit.2) := by
  induction members with
  | nil => exact ⟨[], rfl, rfl, fun _ h => absurd h List.not_mem_nil⟩
  | cons m members ih =>
    obtain ⟨n, answer⟩ := m
    rw [List.all_cons, Bool.and_eq_true] at hall
    cases answer with
    | none => cases hall.1
    | some answer =>
      have hcons : answersOf ((n, some answer) :: members) = (n, answer) :: answersOf members := rfl
      rw [hcons] at hnone ⊢
      cases answer with
      | error reason => cases hnone
      | ok t =>
        obtain ⟨exits, hfst, hsnd, hfrom⟩ := ih hall.2 hnone
        refine ⟨(n, t) :: exits, ?_, ?_, ?_⟩
        · rw [List.map_cons, List.map_cons, hfst]
        · rw [List.map_cons, ← hsnd]
          rfl
        · intro exit hexit
          obtain rfl | hexit := List.mem_cons.mp hexit
          · exact ⟨(n, some (.ok t)), List.mem_cons_self, rfl, rfl⟩
          · obtain ⟨m, hm, hof⟩ := hfrom exit hexit
            exact ⟨m, List.mem_cons_of_mem _ hm, hof⟩

namespace Leave

variable {l : Leave} {r : Run}

theorem Passed.later {after : Run} {admins : Bool} {answers : List (MemberRecord × TerminalReceipt)}
    (h : l.Passed r admins answers) (hread : after.read = r.read)
    (hlater : ∀ answer, r.Exited answer → after.Exited answer) : l.Passed after admins answers :=
  ⟨hread ▸ h.runnable, hread ▸ h.members, fun answer ha => hlater answer (h.exited answer ha)⟩

/-- Of a run that ended without a manifest nothing is asked of a tier or a manifest. -/
theorem Holds.of_error {e : LeaveError} (hphase : r.phase = .ended (.error e)) (grows : ∃ more, r.steps = r.read ++ more)
    (started : r.started = r.phase.reached.flatMap (l.members r.read))
    (behind : ∃ exits : Bool → List (MemberRecord × TerminalReceipt),
      (∀ admins ∈ r.phase.behind, l.Passed r admins (exits admins)) ∧
      r.receipts = l.kept r.read ++ r.phase.behind.flatMap fun admins => (exits admins).map Prod.snd) : l.Holds r := by
  refine ⟨grows, started, behind, ?_, ?_, ?_⟩
  · intro admins failed members heq
    cases hphase.symm.trans heq
  · rintro m (heq | heq) <;> cases hphase.symm.trans heq
  · intro m heq
    cases hphase.symm.trans heq

/-- Whatever happens to the manifest's append, a step recorded leaves the workflows what they hold. -/
theorem Holds.records (h : l.Holds r) (step : BuildStep) (pending : Bool) :
    l.Holds { r with steps := r.steps ++ [step], pending := pending } := by
  obtain ⟨more, hgrows⟩ := h.grows
  obtain ⟨exits, hexits, hreceipts⟩ := h.behind
  have hlater : ∀ answer, r.Exited answer → Run.Exited { r with steps := r.steps ++ [step], pending := pending } answer :=
    fun answer hanswer => hanswer.later (fun _ ha => ha) rfl
  refine ⟨⟨more ++ [step], ?_⟩, h.started, ⟨exits, ?_, hreceipts⟩, ?_, h.manifest, ?_⟩
  · show r.steps ++ [step] = r.read ++ (more ++ [step])
    rw [hgrows, List.append_assoc]
  · intro admins hadmins
    exact (hexits admins hadmins).later rfl hlater
  · intro admins failed members hphase
    obtain ⟨hfailed, hmembers, hanswers⟩ := h.tier admins failed members hphase
    exact ⟨hfailed, hmembers, fun m hm t ht => hlater _ (hanswers m hm t ht)⟩
  · intro m hphase
    exact List.mem_append_left _ (h.recorded m hphase)

theorem holds_answers (h : l.Holds r) {i : Nat} {answer : Answer} (hsound : r.sound (.answers i answer) = true) :
    l.Holds (l.step r (.answers i answer)) := by
  unfold step
  dsimp only
  split
  next admins failed members hphase =>
    split
    next n hi =>
      obtain ⟨exits, hexits, hreceipts⟩ := h.behind
      obtain ⟨hfailed, hmembers, hanswers⟩ := h.tier admins failed members hphase
      have hstarted := h.started
      rw [hphase] at hexits hreceipts hstarted
      have hlater : ∀ e, r.Exited e → Run.Exited { r with
          answered := r.answered ++ [(n, answer)]
          phase := .tier admins failed (members.set i (n, some answer)) } e := by
        intro e he
        exact he.later (fun _ ha => List.mem_append_left _ ha) (List.append_nil _).symm
      refine ⟨h.grows, hstarted, ⟨exits, ?_, hreceipts⟩, ?_, ?_, ?_⟩
      · intro a ha
        exact (hexits a ha).later rfl hlater
      · intro a f ms heq
        cases heq
        refine ⟨hfailed, ?_, ?_⟩
        · have hown : (members.map Prod.fst)[i]? = some n := by rw [List.getElem?_map, hi, Option.map_some]
          obtain ⟨hlt, hget⟩ := List.getElem?_eq_some_iff.mp hown
          rw [List.map_set, ← hmembers]
          dsimp only
          rw [← hget]
          exact List.set_getElem_self hlt
        · refine forall_mem_set (fun m hm t ht => hlater _ (hanswers m hm t ht)) fun t ht => ?_
          cases ht
          refine ⟨List.mem_append_right _ List.mem_cons_self, ?_⟩
          simpa only [Run.sound, hphase, hi] using hsound
      · rintro m (heq | heq) <;> cases heq
      · intro m heq
        cases heq
    next => exact h
  next => exact h

/-- Nothing of a tier that starts has answered. -/
theorem enterTier_tier (l : Leave) (r : Run) (admins : Bool) :
    ∀ a failed members, (l.enterTier r admins).phase = .tier a failed members →
      failed = l.unrunnable r.read a ∧ members.map Prod.fst = l.members r.read a ∧
        ∀ m ∈ members, ∀ t, m.2 = some (.ok t) → (l.enterTier r admins).Exited (m.1, t) := by
  intro a failed members heq
  cases heq
  refine ⟨rfl, ?_, fun m hm t ht => ?_⟩
  · rw [List.map_map]
    exact List.map_id _
  · obtain ⟨n, _, rfl⟩ := List.mem_map.mp hm
    cases ht

/-- The ordinary tier is behind and the node-admins' starts. -/
theorem Holds.to_admins (h : l.Holds r) {failed : List Failure} {members : List (MemberRecord × Option Answer)}
    (hphase : r.phase = .tier false failed members) {answers : List (MemberRecord × TerminalReceipt)}
    (hpassed : l.Passed r false answers) :
    l.Holds (l.enterTier { r with receipts := r.receipts ++ answers.map Prod.snd } true) := by
  obtain ⟨exits, hexits, hreceipts⟩ := h.behind
  have hstarted := h.started
  rw [hphase] at hreceipts hstarted
  refine ⟨h.grows, ?_, ⟨fun _ => answers, ?_, ?_⟩, enterTier_tier l _ true, ?_, ?_⟩
  · show r.started ++ _ = _
    rw [hstarted]
    simp [enterTier, Phase.reached]
  · intro a ha
    rw [List.mem_singleton.mp ha]
    exact hpassed.later rfl fun e he => he
  · show r.receipts ++ _ = _
    rw [hreceipts]
    simp [enterTier, Phase.behind]
  · rintro m (heq | heq) <;> cases heq
  · intro m heq
    cases heq

/-- Both tiers are behind and the manifest is written. -/
theorem Holds.to_recording (h : l.Holds r) {failed : List Failure} {members : List (MemberRecord × Option Answer)}
    (hphase : r.phase = .tier true failed members) {answers : List (MemberRecord × TerminalReceipt)}
    (hpassed : l.Passed r true answers) :
    l.Holds { r with
      receipts := r.receipts ++ answers.map Prod.snd
      phase := .recording (l.manifest (r.receipts ++ answers.map Prod.snd)) } := by
  obtain ⟨exits, hexits, hreceipts⟩ := h.behind
  have hstarted := h.started
  rw [hphase] at hexits hreceipts hstarted
  refine ⟨h.grows, hstarted, ⟨fun a => if a then answers else exits a, ?_, ?_⟩, ?_, ?_, ?_⟩
  · intro a _
    cases a with
    | false => exact (hexits false List.mem_cons_self).later rfl fun e he => he
    | true => exact hpassed.later rfl fun e he => he
  · show r.receipts ++ _ = _
    rw [hreceipts]
    simp [Phase.behind]
  · intro a f ms heq
    cases heq
  · rintro m (heq | heq) <;> cases heq
    rfl
  · intro m heq
    cases heq

theorem holds_joins (h : l.Holds r) : l.Holds (l.step r .joins) := by
  unfold step
  dsimp only
  split
  next admins failed members hphase =>
    split
    next hall =>
      obtain ⟨rfl, hmembers, hanswers⟩ := h.tier admins failed members hphase
      unfold joined
      dsimp only
      split
      next =>
        obtain ⟨exits, hexits, hreceipts⟩ := h.behind
        have hstarted := h.started
        rw [hphase] at hexits hreceipts hstarted
        refine Holds.of_error rfl h.grows hstarted ⟨exits, fun a ha => ?_, hreceipts⟩
        exact (hexits a ha).later rfl fun e he => he
      next hnone =>
        obtain ⟨hrunnable, hfailures⟩ := List.append_eq_nil_iff.mp (Decidable.not_not.mp hnone)
        obtain ⟨answers, hfst, hsnd, hfrom⟩ := exits_of_answers hall hfailures
        have hpassed : l.Passed r admins answers := by
          refine ⟨hrunnable, hfst.trans hmembers, fun e he => ?_⟩
          obtain ⟨m, hm, hn, ht⟩ := hfrom e he
          have hexited := hanswers m hm e.2 ht
          rwa [hn] at hexited
        rw [hsnd]
        cases admins with
        | true => exact h.to_recording hphase hpassed
        | false => exact h.to_admins hphase hpassed
    next => exact h
  next => exact h

theorem holds_writes (h : l.Holds r) (written : Written) : l.Holds (l.step r (.writes written)) := by
  unfold step
  dsimp only
  split
  next manifest hphase =>
    obtain ⟨more, hgrows⟩ := h.grows
    obtain ⟨exits, hexits, hreceipts⟩ := h.behind
    have hstarted := h.started
    have hmanifest := h.manifest manifest (.inl hphase)
    rw [hphase] at hexits hreceipts hstarted
    refine ⟨⟨more ++ [l.exitStep], ?_⟩, hstarted, ⟨exits, ?_, hreceipts⟩, ?_, ?_, ?_⟩
    · show r.steps ++ [l.exitStep] = r.read ++ (more ++ [l.exitStep])
      rw [hgrows, List.append_assoc]
    · intro a ha
      exact (hexits a ha).later rfl fun e he => he.later (fun _ hin => hin) rfl
    · intro a f ms heq
      cases heq
    · rintro m (heq | heq) <;> cases heq
      exact hmanifest
    · intro m _
      exact List.mem_append_right _ List.mem_cons_self
  next manifest reason left hphase =>
    obtain ⟨more, hgrows⟩ := h.grows
    obtain ⟨exits, hexits, hreceipts⟩ := h.behind
    have hstarted := h.started
    rw [hphase] at hexits hreceipts hstarted
    refine Holds.of_error rfl ⟨more ++ if left = .line then [l.exitStep] else [], ?_⟩ hstarted
      ⟨exits, fun a ha => ?_, hreceipts⟩
    · show r.steps ++ _ = r.read ++ (more ++ _)
      rw [hgrows, List.append_assoc]
    · exact (hexits a ha).later rfl fun e he => he.later (fun _ hin => hin) rfl
  next => exact h

theorem holds_settles (h : l.Holds r) : l.Holds (l.step r .settles) := by
  unfold step
  dsimp only
  split
  next => exact h.records l.exitStep false
  next => exact h

theorem holds_step (h : l.Holds r) {move : Move} (hsound : r.sound move = true) : l.Holds (l.step r move) := by
  cases move with
  | records step => exact h.records step r.pending
  | answers i answer => exact holds_answers h hsound
  | joins => exact holds_joins h
  | writes written => exact holds_writes h written
  | settles => exact holds_settles h

theorem holds_begin (l : Leave) (steps : List BuildStep) (unreadable : Option String) :
    l.Holds (l.begin steps unreadable) := by
  unfold begin
  dsimp only
  split
  next =>
    exact Holds.of_error rfl ⟨[], (List.append_nil _).symm⟩ rfl
      ⟨fun _ => [], fun _ ha => absurd ha List.not_mem_nil, (List.append_nil _).symm⟩
  next =>
    split
    next =>
      exact Holds.of_error rfl ⟨[], (List.append_nil _).symm⟩ rfl
        ⟨fun _ => [], fun _ ha => absurd ha List.not_mem_nil, (List.append_nil _).symm⟩
    next =>
      refine ⟨⟨[], (List.append_nil _).symm⟩, ?_,
        ⟨fun _ => [], fun _ ha => absurd ha List.not_mem_nil, (List.append_nil _).symm⟩, ?_, ?_, ?_⟩
      · simp [enterTier, Phase.reached]
      · exact enterTier_tier l _ false
      · rintro m (heq | heq) <;> cases heq
      · intro m heq
        cases heq

/-- No two shutdowns started are of one birth. -/
theorem Holds.nodup (h : l.Holds r) (hnodup : (l.roster.map RosterBirth.birth).Nodup) :
    (r.started.map MemberRecord.birth).Nodup := by
  have hsub : (r.started.map MemberRecord.birth).Sublist
      ((l.tierOf r.read false ++ l.tierOf r.read true).map fun b => lifted b.birth) := by
    rw [h.started, List.map_append]
    refine (((Phase.reached_sublist r.phase).flatMap _).map _).trans ?_
    rw [List.flatMap_cons, List.flatMap_cons, List.flatMap_nil, List.append_nil, List.map_append]
    exact (members_sublist l r.read false).append (members_sublist l r.read true)
  exact (tiers_nodup hnodup r.read).sublist hsub

/-- A shutdown started is of a birth of a tier reached. -/
theorem Holds.of_started (h : l.Holds r) {n : MemberRecord} (hn : n ∈ r.started) :
    ∃ admins ∈ r.phase.reached, ∃ b ∈ l.tierOf r.read admins, n.birth = lifted b.birth := by
  rw [h.started] at hn
  obtain ⟨admins, hadmins, hn⟩ := List.mem_flatMap.mp hn
  exact ⟨admins, hadmins, birth_of_member hn⟩

theorem Holds.starts (h : l.Holds r) {b : RosterBirth} {n : MemberRecord} {admins : Bool}
    (hadmins : admins ∈ r.phase.reached) (hb : b ∈ l.tierOf r.read admins)
    (hrecord : l.recordOf b = .ok n) : n ∈ r.started := by
  rw [h.started]
  refine List.mem_flatMap.mpr ⟨admins, hadmins, List.mem_filterMap.mpr ⟨b, hb, ?_⟩⟩
  rw [hrecord]
  rfl

/-- Every birth of a tier that is behind answered its receipt. -/
theorem Holds.exits (h : l.Holds r) {b : RosterBirth} {admins : Bool} (hadmins : admins ∈ r.phase.behind)
    (hb : b ∈ l.tierOf r.read admins) :
    ∃ answer, r.Exited answer ∧ answer.1 ∈ r.started ∧ answer.1.birth = lifted b.birth := by
  obtain ⟨exits, hexits, _⟩ := h.behind
  obtain ⟨hrunnable, hmembers, hanswers⟩ := hexits admins hadmins
  have hbirth : lifted b.birth ∈ (l.members r.read admins).map MemberRecord.birth := by
    rw [members_births hrunnable]
    exact List.mem_map_of_mem hb
  obtain ⟨n, hn, hof⟩ := List.mem_map.mp hbirth
  have hstarted : n ∈ r.started := by
    rw [h.started]
    exact List.mem_flatMap.mpr ⟨admins, Phase.reached_of_behind hadmins, hn⟩
  rw [← hmembers] at hn
  obtain ⟨answer, hanswer, rfl⟩ := List.mem_map.mp hn
  exact ⟨answer, hanswers answer hanswer, hstarted, hof⟩

/-- Where a node-admin's shutdown has started, every ordinary one has answered its receipt. -/
theorem Holds.ordinary_first (h : l.Holds r) (hnodup : (l.roster.map RosterBirth.birth).Nodup) {n : MemberRecord}
    (hn : n ∈ r.started) {admin b : RosterBirth} (hadmin : admin ∈ l.roster) (htype : isNodeAdmin admin.type = true)
    (hbirth : n.birth = lifted admin.birth) (hb : b ∈ l.tierOf r.read false) :
    ∃ m t, (m, .ok t) ∈ r.answered ∧ m.birth = lifted b.birth := by
  obtain ⟨admins, hreached, c, hc, hcbirth⟩ := h.of_started hn
  obtain ⟨hremaining, hctype⟩ := mem_tierOf.mp hc
  have hroster : c ∈ l.roster := ((mem_remaining hnodup).mp hremaining).1
  have hsame : admin = c := List.inj_on_of_nodup_map hnodup hadmin hroster (lifted_injective (hbirth.symm.trans hcbirth))
  have hadmins : admins = true := by rw [← hctype, ← hsame, htype]
  rw [hadmins] at hreached
  obtain ⟨answer, hexited, _, hanswered⟩ := h.exits (Phase.behind_of_reached hreached) hb
  exact ⟨answer.1, answer.2, hexited.1, hanswered⟩

/-- The receipts are those of every birth but the final one. -/
theorem Holds.receipts_perm (h : l.Holds r) (hnodup : (l.roster.map RosterBirth.birth).Nodup)
    (hbehind : r.phase.behind = [false, true]) :
    (r.receipts.map TerminalReceipt.birth).Perm (l.others.map RosterBirth.birth) := by
  obtain ⟨exits, hexits, hreceipts⟩ := h.behind
  have hbirths : ∀ admins ∈ r.phase.behind,
      ((exits admins).map Prod.snd).map TerminalReceipt.birth = (l.tierOf r.read admins).map RosterBirth.birth := by
    intro admins hadmins
    obtain ⟨hrunnable, hmembers, hanswers⟩ := hexits admins hadmins
    refine lifted_injective.list_map ?_
    have hlifted : (exits admins).map (fun e => lifted e.2.birth) = (exits admins).map fun e => e.1.birth := by
      refine List.map_congr_left fun e he => ?_
      have hdeleted := (hanswers e he).2
      rw [deletedAs, Bool.and_eq_true, beq_iff_eq] at hdeleted
      exact hdeleted.2.symm
    have hof := members_births hrunnable
    rw [← hmembers, List.map_map] at hof
    rw [List.map_map, List.map_map, List.map_map]
    exact hlifted.trans hof
  rw [hbehind] at hbirths hreceipts
  have hfalse := hbirths false List.mem_cons_self
  have htrue := hbirths true (List.mem_cons_of_mem _ List.mem_cons_self)
  rw [hreceipts, List.flatMap_cons, List.flatMap_cons, List.flatMap_nil, List.append_nil, ← List.append_assoc,
    List.map_append, List.map_append, kept_births hnodup, hfalse, htrue, ← List.map_append, ← List.map_append]
  exact (l.others_perm r.read).map _

/-- Every birth but the final one exited. -/
theorem Holds.others_exited (h : l.Holds r) (hnodup : (l.roster.map RosterBirth.birth).Nodup)
    (hbehind : r.phase.behind = [false, true]) {b : RosterBirth} (hb : b ∈ l.roster) (hother : b ≠ l.me) :
    exited r.steps b = true := by
  cases hfinished : finished r.read b with
  | true =>
    obtain ⟨more, hgrows⟩ := h.grows
    rw [finished, Bool.and_eq_true] at hfinished
    rw [hgrows]
    exact exited_append hfinished.1 more
  | false =>
    have hadmins : isNodeAdmin b.type ∈ r.phase.behind := by
      rw [hbehind]
      cases isNodeAdmin b.type <;> simp
    obtain ⟨answer, ⟨_, hdeleted⟩, _, hof⟩ :=
      h.exits hadmins (mem_tierOf.mpr ⟨(mem_remaining hnodup).mpr ⟨hb, hother, hfinished⟩, rfl⟩)
    have hid : answer.1.node.nodeId = b.nodeId := congrArg Prod.fst hof
    rw [deletedAs, Bool.and_eq_true, List.all_eq_true] at hdeleted
    rw [exited, Bool.and_eq_true, ← hid]
    exact ⟨answer.1.isMinted, hdeleted.1 .terminateRuntime (by decide)⟩

/-- The manifest answered matches the roster, and the owner that reads the steps accepts the handoff. -/
theorem Holds.agrees (h : l.Holds r) (hnodup : (l.roster.map RosterBirth.birth).Nodup) {manifest : ExitManifest}
    (hok : r.phase = .ended (.ok manifest)) :
    firstMismatch manifest l.roster l.me false = none ∧
    ∀ printed reference finalRuntime, namesWorkflow reference l.key = true →
      ∃ accepted, handoffVerdict printed r.steps l.key ⟨l.roster, l.me, finalRuntime⟩ reference = .accept accepted := by
  have hbehind : r.phase.behind = [false, true] := by rw [hok]; rfl
  have hmanifest := h.manifest manifest (.inr hok)
  refine ⟨?_, fun printed reference finalRuntime hreference => ?_⟩
  · rw [hmanifest]
    exact firstMismatch_none rfl rfl hnodup (h.receipts_perm hnodup hbehind)
  · have hrecorded : completed r.steps (operationText l.key.operation) otherMembersExited = true := by
      refine List.any_eq_true.mpr ⟨l.exitStep, h.recorded manifest hok, ?_⟩
      simp [exitStep]
    exact ⟨_, handoffVerdict_accept printed hnodup hreference hrecorded fun b hb hother =>
      h.others_exited hnodup hbehind hb hother⟩

theorem step_read (l : Leave) (r : Run) (move : Move) : (l.step r move).read = r.read := by
  cases move with
  | records step => rfl
  | answers i answer =>
    unfold step
    dsimp only
    split
    next => split <;> rfl
    next => rfl
  | joins =>
    unfold step
    dsimp only
    split
    next =>
      split
      next =>
        unfold joined
        dsimp only
        split
        next => rfl
        next => split <;> rfl
      next => rfl
    next => rfl
  | writes written =>
    unfold step
    dsimp only
    split <;> rfl
  | settles =>
    unfold step
    dsimp only
    split <;> rfl

/-- The manifest's step is recorded with the manifest answered alone: else the Build holds the `others`' steps, and no
append of it is pending. -/
def Apart (others : List BuildStep) (r : Run) : Prop :=
  (∃ manifest, r.phase = .ended (.ok manifest)) ∨ (r.steps = others ∧ r.pending = false)

/-- A move whose write leaves nothing on an error records what it records, unless it records the manifest's own step. -/
theorem apart_step {others : List BuildStep} {move : Move} (hclean : move.clean = true) (hsteps : r.steps = others)
    (hpending : r.pending = false) : Apart (others ++ move.recorded.toList) (l.step r move) := by
  have hsame : Apart (others ++ []) r := .inr ⟨hsteps.trans (List.append_nil _).symm, hpending⟩
  cases move with
  | records step => exact .inr ⟨by rw [← hsteps]; rfl, hpending⟩
  | answers i answer =>
    unfold step
    dsimp only
    split
    next =>
      split
      next => exact .inr ⟨hsteps.trans (List.append_nil _).symm, hpending⟩
      next => exact hsame
    next => exact hsame
  | joins =>
    unfold step
    dsimp only
    split
    next =>
      split
      next =>
        unfold joined
        dsimp only
        split
        next => exact .inr ⟨hsteps.trans (List.append_nil _).symm, hpending⟩
        next => split <;> exact .inr ⟨hsteps.trans (List.append_nil _).symm, hpending⟩
      next => exact hsame
    next => exact hsame
  | writes written =>
    unfold step
    dsimp only
    split
    next manifest _ => exact .inl ⟨manifest, rfl⟩
    next manifest reason left _ =>
      have hleft : left = .nothing := by simpa [Move.clean] using hclean
      subst hleft
      exact .inr ⟨by rw [← hsteps]; rfl, rfl⟩
    next => exact hsame
  | settles =>
    unfold step
    dsimp only
    rw [hpending]
    exact hsame

/-- A run that ended stays as it ended. -/
theorem ended_step {result : Except LeaveError ExitManifest} (h : r.phase = .ended result) (move : Move) :
    (l.step r move).phase = .ended result := by
  cases move with
  | records step => exact h
  | answers i answer => simp only [step, h]
  | joins => simp only [step, h]
  | writes written => simp only [step, h]
  | settles =>
    unfold step
    dsimp only
    split <;> exact h

theorem begin_frame (l : Leave) (steps : List BuildStep) (unreadable : Option String) :
    (l.begin steps unreadable).read = steps ∧ (l.begin steps unreadable).steps = steps ∧
      (l.begin steps unreadable).pending = false := by
  unfold begin
  dsimp only
  split
  next => exact ⟨rfl, rfl, rfl⟩
  next => split <;> exact ⟨rfl, rfl, rfl⟩

/-- What the run and the Build hold after some moves, from the steps that were read. -/
structure Tracks (l : Leave) (steps : List BuildStep) (moves : List Move) (r : Run) : Prop where
  holds : l.Holds r
  read : r.read = steps
  recorded : (∀ move ∈ moves, move.clean = true) → Apart (steps ++ moves.filterMap Move.recorded) r

theorem tracks_begin (l : Leave) (steps : List BuildStep) (unreadable : Option String) :
    l.Tracks steps [] (l.begin steps unreadable) := by
  obtain ⟨hread, hsteps, hpending⟩ := begin_frame l steps unreadable
  refine ⟨holds_begin l steps unreadable, hread, fun _ => .inr ⟨?_, hpending⟩⟩
  rw [hsteps]
  exact (List.append_nil _).symm

theorem Tracks.step {steps : List BuildStep} {moves : List Move} (h : l.Tracks steps moves r) {move : Move}
    (hsound : r.sound move = true) : l.Tracks steps (moves ++ [move]) (l.step r move) := by
  refine ⟨holds_step h.holds hsound, (step_read l r move).trans h.read, fun hclean => ?_⟩
  have hmove : move.clean = true := hclean move (List.mem_append_right _ List.mem_cons_self)
  obtain ⟨manifest, hended⟩ | ⟨hsteps, hpending⟩ := h.recorded fun m hm => hclean m (List.mem_append_left _ hm)
  · exact .inl ⟨manifest, ended_step hended move⟩
  · have hapart := apart_step (l := l) hmove hsteps hpending
    rw [List.filterMap_append, ← List.append_assoc]
    cases hmoved : move.recorded <;> simpa [hmoved] using hapart

theorem tracks_run {steps : List BuildStep} {unreadable : Option String} {moves : List Move}
    (hsound : RunOk l.step (fun r move => r.sound move = true) (l.begin steps unreadable) moves) :
    l.Tracks steps moves (moves.foldl l.step (l.begin steps unreadable)) :=
  hsound.along (fun _ _ _ h hmove => h.step hmove) (tracks_begin l steps unreadable)

/-- Every run of the member workflows over a roster of distinct nodes: no birth is shut down twice, and only births of the
others whose delete has not ended are; each of a tier every birth of which exited is, and of a tier reached each that a
record is had of; no node-admin's shutdown starts before every ordinary one answered its receipt; a manifest answered is one
the owner accepts; and a run that answers none leaves the Build what the shutdowns recorded, where the write of the
manifest's event leaves nothing on an error. -/
theorem members_exited_agrees (l : Leave) (hids : (l.roster.map RosterBirth.nodeId).Nodup) (steps : List BuildStep)
    (unreadable : Option String) (moves : List Move)
    (hsound : RunOk l.step (fun r move => r.sound move = true) (l.begin steps unreadable) moves) :
    let r := moves.foldl l.step (l.begin steps unreadable)
    let unfinished b := b ∈ l.roster ∧ b ≠ l.me ∧ finished steps b = false
    (r.started.map MemberRecord.birth).Nodup ∧
    (∀ n ∈ r.started, ∃ b, unfinished b ∧ n.birth = lifted b.birth) ∧
    (∀ b, unfinished b → isNodeAdmin b.type ∈ r.phase.behind → ∃ n ∈ r.started, n.birth = lifted b.birth) ∧
    (∀ b n, unfinished b → isNodeAdmin b.type ∈ r.phase.reached → l.recordOf b = .ok n → n ∈ r.started) ∧
    (∀ n ∈ r.started, ∀ admin, unfinished admin → isNodeAdmin admin.type = true → n.birth = lifted admin.birth →
      ∀ b, unfinished b → isNodeAdmin b.type = false → ∃ m t, (m, .ok t) ∈ r.answered ∧ m.birth = lifted b.birth) ∧
    (∀ manifest, r.phase = .ended (.ok manifest) → firstMismatch manifest l.roster l.me false = none ∧
      ∀ printed reference finalRuntime, namesWorkflow reference l.key = true →
        ∃ accepted, handoffVerdict printed r.steps l.key ⟨l.roster, l.me, finalRuntime⟩ reference = .accept accepted) ∧
    ((∀ move ∈ moves, move.clean = true) → ∀ e, r.phase = .ended (.error e) →
      r.steps = steps ++ moves.filterMap Move.recorded) := by
  intro r unfinished
  obtain ⟨hholds, hread, hrecorded⟩ : l.Tracks steps moves r := tracks_run hsound
  have hnodup : (l.roster.map RosterBirth.birth).Nodup := by
    refine List.Nodup.of_map Prod.fst ?_
    rw [List.map_map]
    exact hids
  have htier : ∀ b, unfinished b → b ∈ l.tierOf r.read (isNodeAdmin b.type) := by
    intro b hb
    rw [hread]
    exact mem_tierOf.mpr ⟨(mem_remaining hnodup).mpr hb, rfl⟩
  refine ⟨hholds.nodup hnodup, ?_, ?_, ?_, ?_, fun manifest hok => hholds.agrees hnodup hok, ?_⟩
  · intro n hn
    obtain ⟨admins, _, b, hb, hbirth⟩ := hholds.of_started hn
    rw [hread] at hb
    exact ⟨b, (mem_remaining hnodup).mp (mem_tierOf.mp hb).1, hbirth⟩
  · intro b hb hbehind
    obtain ⟨answer, _, hstarted, hbirth⟩ := hholds.exits hbehind (htier b hb)
    exact ⟨answer.1, hstarted, hbirth⟩
  · intro b n hb hreached hrecord
    exact hholds.starts hreached (htier b hb) hrecord
  · intro n hn admin hadmin hisAdmin hbirth b hb hordinary
    have hbtier := htier b hb
    rw [hordinary] at hbtier
    exact hholds.ordinary_first hnodup hn hadmin.1 hisAdmin hbirth hbtier
  · intro hclean e herror
    obtain ⟨manifest, hok⟩ | ⟨hsteps, _⟩ := hrecorded hclean
    · cases herror.symm.trans hok
    · exact hsteps

/-- A birth of `mesh2`. -/
def birthOf (type nodeId incarnationId : String) : RosterBirth := ⟨"mesh2", type, ("p", nodeId), nodeId, incarnationId⟩

/-- The final primary, an ordinary member and a second node-admin. -/
def threeMembers : Leave where
  key := ⟨"mesh00000002", "0000000000b1", Build.operationOn "mesh.delete" (.mesh "mesh00000002")⟩
  executor := "admin1"
  roster := [birthOf "node-admin" "00000000000a" "11111111111a", birthOf "worker" "00000000000b" "11111111111b",
    birthOf "node-admin" "00000000000c" "11111111111c"]
  me := birthOf "node-admin" "00000000000a" "11111111111a"
  finalRuntime := ⟨"d", "p", "c", "l", "f"⟩
  records := []

/-- A member's own delete, recorded step by step, and its receipt. -/
def deletes (b : RosterBirth) : List Move :=
  (DeleteStep.order.map fun step =>
    .records ⟨operationText (Build.operationOn "node.delete" (.node b.nodeId)), step.name, .complete⟩) ++
    [.answers 0 (.ok (exitOf b))]

/-- Both tiers of the three end, and the write of the manifest's event answers. -/
def threeMoves (written : Written) : List Move :=
  deletes (birthOf "worker" "00000000000b" "11111111111b") ++ [.joins] ++
    deletes (birthOf "node-admin" "00000000000c" "11111111111c") ++ [.joins, .writes written]

/-- Both tiers end and the owner accepts the handoff; where the event's write is refused with nothing left of it, the Build
holds the shutdowns' steps. -/
theorem threeMembers_handed_over :
    let ends written := (threeMoves written).foldl threeMembers.step (threeMembers.begin [] none)
    (ends .recorded).started.map MemberRecord.birth =
      [("00000000000b", some "11111111111b"), ("00000000000c", some "11111111111c")] ∧
    (∃ manifest, (ends .recorded).phase = .ended (.ok manifest) ∧
      firstMismatch manifest threeMembers.roster threeMembers.me false = none) ∧
    (ends (.refused "full" .nothing)).phase = .ended (.error (.unrecorded "full")) ∧
    (ends (.refused "full" .nothing)).steps = (threeMoves (.refused "full" .nothing)).filterMap Move.recorded := by
  intro ends
  have hended : (ends .recorded).phase = .ended (.ok (threeMembers.manifest (ends .recorded).receipts)) := by
    decide +kernel
  have hrefused : (ends (.refused "full" .nothing)).phase = .ended (.error (.unrecorded "full")) := by decide +kernel
  have hrun := members_exited_agrees threeMembers (by decide) [] none (threeMoves .recorded) (by decide +kernel)
  have hother := members_exited_agrees threeMembers (by decide) [] none (threeMoves (.refused "full" .nothing))
    (by decide +kernel)
  exact ⟨by decide +kernel, ⟨_, hended, (hrun.2.2.2.2.2.1 _ hended).1⟩, hrefused,
    hother.2.2.2.2.2.2 (by decide) _ hrefused⟩

/-- The write of the manifest's event answers in full and its fsync fails: the run answers an error, and the Build holds the
step that every other member exited, which no shutdown recorded. -/
theorem unsynced_exit_stands :
    let moves := threeMoves (.refused "the line was written and its fsync failed" .line)
    let r := moves.foldl threeMembers.step (threeMembers.begin [] none)
    (threeMembers.roster.map RosterBirth.nodeId).Nodup ∧ threeMembers.me ∈ threeMembers.roster ∧
      RunOk threeMembers.step (fun r move => r.sound move = true) (threeMembers.begin [] none) moves ∧
      (∃ e, r.phase = .ended (.error e)) ∧ threeMembers.exitStep ∉ moves.filterMap Move.recorded ∧
      completed r.steps (operationText threeMembers.key.operation) otherMembersExited = true := by
  intro moves r
  have hended : r.phase = .ended (.error (.unrecorded "the line was written and its fsync failed")) := by decide +kernel
  exact ⟨by decide, by decide, by decide +kernel, ⟨_, hended⟩, by decide +kernel, by decide +kernel⟩

end Leave

end DistributedMesh.MeshDelete
