import DistributedMesh.BuildReads
import Mathlib.Data.List.Induction

namespace DistributedMesh.Build

variable {T : Type}

/-- One acceptance of each Build. -/
def OneAcceptance (facts : List (BuildFact T)) : Prop :=
  ∀ a b, .accepted a ∈ facts → .accepted b ∈ facts → a.buildId = b.buildId → a = b

/-- No Build's acceptance comes only after it is forgotten. -/
def AcceptedFirst (facts : List (BuildFact T)) : Prop :=
  ∀ before id after, facts = before ++ .forget id :: after → known after id = true → known before id = true

/-- A Build is forgotten before its acceptance comes. -/
def Late (facts : List (BuildFact T)) (id : String) : Prop :=
  ∃ before after, facts = before ++ .forget id :: after ∧ known before id = false ∧ known after id = true

theorem Late.forgotten {facts : List (BuildFact T)} {id : String} (h : Late facts id) : .forget id ∈ facts := by
  obtain ⟨before, after, rfl, -, -⟩ := h
  simp

theorem Late.known {facts : List (BuildFact T)} {id : String} (h : Late facts id) : Build.known facts id = true := by
  obtain ⟨before, after, hfacts, -, hafter⟩ := h
  rw [hfacts, known_append, show Build.known (.forget id :: after) id = Build.known after id from rfl, hafter]
  exact Bool.or_true _

theorem acceptedFirst_iff (facts : List (BuildFact T)) : AcceptedFirst facts ↔ ∀ id, ¬ Late facts id := by
  constructor
  · rintro h id ⟨before, after, hfacts, hbefore, hafter⟩
    rw [h before id after hfacts hafter] at hbefore
    cases hbefore
  · intro h before id after hfacts hafter
    cases hbefore : known before id with
    | true => rfl
    | false => exact absurd ⟨before, after, hfacts, hbefore, hafter⟩ (h id)

theorem known_of_split {facts before after : List (BuildFact T)} {id : String}
    (h : facts = before ++ .forget id :: after) : known facts id = (known before id || known after id) := by
  rw [h, known_append]
  congr 1

/-- A fact that is not the acceptance the Build waits for makes nothing late. -/
theorem late_snoc {facts : List (BuildFact T)} {f : BuildFact T} {id : String} (h : known facts id = known (facts ++ [f]) id) :
    Late (facts ++ [f]) id ↔ Late facts id := by
  constructor
  · rintro ⟨before, after, hfacts, hbefore, hafter⟩
    rcases List.eq_nil_or_concat after with rfl | ⟨rest, last, rfl⟩
    · cases hafter
    · have hsplit : facts ++ [f] = (before ++ .forget id :: rest) ++ [last] := by simpa using hfacts
      obtain ⟨hrest, -⟩ := List.append_inj' hsplit rfl
      refine ⟨before, rest, hrest, hbefore, ?_⟩
      have hknown := known_of_split hrest
      rw [h, known_of_split hfacts, hbefore, hafter] at hknown
      simpa using hknown.symm
  · rintro ⟨before, after, rfl, hbefore, hafter⟩
    refine ⟨before, after ++ [f], by simp, hbefore, ?_⟩
    rw [known_append, hafter]
    rfl

/-- The first acceptance of a Build that is forgotten already is late. -/
theorem late_snoc_accepted {facts : List (BuildFact T)} {a : BuildAccepted T} (hunknown : known facts a.buildId = false)
    (hforgotten : .forget a.buildId ∈ facts) : Late (facts ++ [.accepted a]) a.buildId := by
  obtain ⟨before, after, rfl⟩ := List.append_of_mem hforgotten
  have hneither := known_of_split (rfl : before ++ .forget a.buildId :: after = _)
  rw [hunknown] at hneither
  have hbefore : known before a.buildId = false := (Bool.or_eq_false_iff.mp hneither.symm).1
  exact ⟨before, after ++ [.accepted a], by simp, hbefore, by simp [known]⟩

theorem answer_mem {facts : List (BuildFact T)} {id : String} {a : BuildAccepted T} (h : answer facts id = some a) :
    .accepted a ∈ facts ∧ a.buildId = id := by
  induction facts using List.reverseRecOn with
  | nil => cases h
  | append_singleton facts f ih =>
    rw [answer_append] at h
    cases f with
    | forget other =>
      dsimp only [answerAfter] at h
      split at h
      next => cases h
      next =>
        obtain ⟨hmem, hid⟩ := ih h
        exact ⟨List.mem_append_left _ hmem, hid⟩
    | accepted c =>
      dsimp only [answerAfter] at h
      split at h
      next hc =>
        cases hheld : answer facts id with
        | none =>
          rw [hheld] at h
          cases h
          exact ⟨by simp, hc⟩
        | some d =>
          rw [hheld] at h
          cases h
          obtain ⟨hmem, hid⟩ := ih hheld
          exact ⟨List.mem_append_left _ hmem, hid⟩
      next =>
        obtain ⟨hmem, hid⟩ := ih h
        exact ⟨List.mem_append_left _ hmem, hid⟩

variable [DecidableEq T]

/-- One way of bringing committed records into a Build log. -/
inductive Bring (T : Type) where
  | absorbFacts (facts : List (BuildFact T))
  /-- One Build's whole committed records. -/
  | absorbBuild (facts : List (BuildFact T))
  /-- Records read from the store, by their lines' ids. -/
  | takeRead (ids : List String)

section Brought

variable (stored : String → StoredFact T)

/-- The facts a batch brings, in the order they are taken. -/
def Bring.facts : Bring T → List (BuildFact T)
  | .absorbFacts facts => facts
  | .absorbBuild facts => facts
  | .takeRead ids => (inWrittenOrder (ids.map fun id => (id, stored id))).map fun r => r.2.fact

def Journal.bring (j : Journal T) : Bring T → Journal T
  | .absorbFacts facts => { j with log := j.log.absorb facts }
  | .absorbBuild facts => { j with log := j.log.absorb facts }
  | .takeRead ids => j.takeRead (ids.map fun id => (id, stored id))

/-- The facts brought, in the order they are taken. -/
def brought (way : List (Bring T)) : List (BuildFact T) := way.flatMap (Bring.facts stored)

/-- The Build log a way of bringing ends in. -/
def logOf (way : List (Bring T)) : FactLog T := (way.foldl (Journal.bring stored) .opened).log

end Brought

/-- Facts are merged one after another, one that adds nothing left out. -/
def merged (held facts : List (BuildFact T)) : List (BuildFact T) :=
  facts.foldl (fun held f => if isNew held f then held ++ [f] else held) held

theorem isNew_append (held new : List (BuildFact T)) (f : BuildFact T) :
    isNew (held ++ new) f = (isNew held f && isNew new f) := by
  cases f with
  | accepted a => simp [isNew, known]
  | forget id => simp [isNew, Bool.not_or]

/-- Absorbing is merging. -/
theorem append_unseen (held facts : List (BuildFact T)) : held ++ FactLog.unseen held facts = merged held facts := by
  unfold FactLog.unseen merged
  have hrun : ∀ new, held ++ facts.foldl (fun new f => if isNew held f && isNew new f then new ++ [f] else new) new =
      facts.foldl (fun held f => if isNew held f then held ++ [f] else held) (held ++ new) := by
    induction facts with
    | nil => exact fun _ => rfl
    | cons f facts ih =>
      intro new
      rw [List.foldl_cons, List.foldl_cons, ih, isNew_append]
      split
      next => rw [List.append_assoc]
      next => rfl
  simpa using hrun []

theorem merged_append (held facts more : List (BuildFact T)) :
    merged held (facts ++ more) = merged (merged held facts) more := by
  unfold merged
  rw [List.foldl_append]

theorem isNew_false_of_mem {held : List (BuildFact T)} {f : BuildFact T} (h : f ∈ held) : isNew held f = false := by
  cases f with
  | accepted a =>
    have hknown : known held a.buildId = true := List.any_eq_true.mpr ⟨.accepted a, h, by simp⟩
    simp [isNew, hknown]
  | forget id => simpa [isNew] using h

theorem isNew_merged {held facts : List (BuildFact T)} {f : BuildFact T} (h : isNew held f = false) :
    isNew (merged held facts) f = false := by
  rw [← append_unseen, isNew_append, h]
  rfl

theorem isNew_merged_mem {held facts : List (BuildFact T)} {f : BuildFact T} (h : f ∈ facts) :
    isNew (merged held facts) f = false := by
  obtain ⟨before, after, rfl⟩ := List.append_of_mem h
  rw [show before ++ f :: after = (before ++ [f]) ++ after by simp, merged_append, merged_append]
  apply isNew_merged
  unfold merged
  rw [List.foldl_cons, List.foldl_nil]
  split
  next => exact isNew_false_of_mem (by simp)
  next hold => simpa using hold

theorem merged_mem {held facts : List (BuildFact T)} {f : BuildFact T} (h : f ∈ merged held facts) :
    f ∈ held ∨ f ∈ facts := by
  induction facts generalizing held with
  | nil => exact .inl h
  | cons g facts ih =>
    unfold merged at h
    rw [List.foldl_cons] at h
    rcases ih h with hheld | hfacts
    · split at hheld
      next =>
        rcases List.mem_append.mp hheld with hheld | hg
        · exact .inl hheld
        · rw [List.mem_singleton.mp hg]
          exact .inr List.mem_cons_self
      next => exact .inl hheld
    · exact .inr (List.mem_cons_of_mem g hfacts)

theorem heldOtherwise_false {total held : List (BuildFact T)} {a : BuildAccepted T} (hone : OneAcceptance total)
    (hheld : ∀ f ∈ held, f ∈ total) (ha : .accepted a ∈ total) : heldOtherwise held a = false := by
  unfold heldOtherwise
  rw [List.any_eq_false]
  intro f hf
  cases f with
  | forget id => simp
  | accepted c =>
    simp only [Bool.and_eq_true, beq_iff_eq, bne_iff_ne, ne_eq, not_and, not_not]
    exact fun hid => hone c a (hheld _ hf) ha hid

section Take

variable {stored : String → StoredFact T} {total held : List (BuildFact T)}

/-- One record of a take that is not known twice: it is merged, and its line is marked taken. -/
theorem Taking.record_fresh (hone : OneAcceptance total) (hheld : ∀ f ∈ held, f ∈ total) {t : Taking T} {r : Record T}
    (hr : r.2.fact ∈ total) (hseen : r.1 ∉ t.seen) :
    (t.record held r).stored = t.stored ∧ (t.record held r).seen = r.1 :: t.seen ∧
      (t.record held r).new = if isNew held r.2.fact && isNew t.new r.2.fact then t.new ++ [r.2.fact] else t.new := by
  unfold Taking.record
  rw [if_neg (by simpa using hseen)]
  dsimp only
  cases hfact : r.2.fact with
  | accepted a =>
    rw [hfact] at hr
    dsimp only
    rw [heldOtherwise_false hone hheld hr, if_neg Bool.false_ne_true]
    split <;> exact ⟨rfl, rfl, rfl⟩
  | forget id =>
    dsimp only
    split <;> exact ⟨rfl, rfl, rfl⟩

theorem Taking.records (hone : OneAcceptance total) (hheld : ∀ f ∈ held, f ∈ total) (read : List (Record T))
    (hread : ∀ r ∈ read, r.2 = stored r.1 ∧ r.2.fact ∈ total) (t : Taking T)
    (hseen : ∀ id ∈ t.seen, isNew (held ++ t.new) (stored id).fact = false) :
    (read.foldl (Taking.record held) t).stored = t.stored ∧
      held ++ (read.foldl (Taking.record held) t).new = merged (held ++ t.new) (read.map fun r => r.2.fact) ∧
      ∀ id ∈ (read.foldl (Taking.record held) t).seen,
        isNew (merged (held ++ t.new) (read.map fun r => r.2.fact)) (stored id).fact = false := by
  induction read generalizing t with
  | nil => exact ⟨rfl, rfl, hseen⟩
  | cons r read ih =>
    obtain ⟨hstored, hfact⟩ := hread r List.mem_cons_self
    have hrest := fun s hs => hread s (List.mem_cons_of_mem r hs)
    rw [List.foldl_cons, List.map_cons,
      show merged (held ++ t.new) (r.2.fact :: read.map fun r => r.2.fact) =
        merged (merged (held ++ t.new) [r.2.fact]) (read.map fun r => r.2.fact) from merged_append _ [_] _]
    by_cases hr : r.1 ∈ t.seen
    · have hold : merged (held ++ t.new) [r.2.fact] = held ++ t.new := by
        unfold merged
        rw [List.foldl_cons, List.foldl_nil, hstored, hseen r.1 hr, if_neg Bool.false_ne_true]
      rw [Taking.record_seen hr, hold]
      exact ih hrest t hseen
    · obtain ⟨hkept, hmarked, hnew⟩ := Taking.record_fresh (t := t) hone hheld hfact hr
      have hmerged : held ++ (t.record held r).new = merged (held ++ t.new) [r.2.fact] := by
        unfold merged
        rw [List.foldl_cons, List.foldl_nil, hnew, isNew_append]
        split
        next => rw [List.append_assoc]
        next => rfl
      have hmarks : ∀ id ∈ (t.record held r).seen, isNew (held ++ (t.record held r).new) (stored id).fact = false := by
        intro id hid
        rw [hmerged]
        rw [hmarked] at hid
        rcases List.mem_cons.mp hid with rfl | hid
        · rw [← hstored]
          exact isNew_merged_mem (by simp)
        · exact isNew_merged (hseen id hid)
      obtain ⟨h1, h2, h3⟩ := ih hrest (t.record held r) hmarks
      rw [hmerged] at h2 h3
      exact ⟨h1.trans hkept, h2, h3⟩

end Take

/-- What a journal holds of the facts brought so far. -/
structure Journal.Holds (stored : String → StoredFact T) (total facts : List (BuildFact T)) (j : Journal T) : Prop where
  positioned : j.log.Positioned
  ordered : j.log.Ordered
  facts_eq : j.log.facts = merged [] facts
  within : ∀ f ∈ facts, f ∈ total
  taken : ∀ id ∈ j.seen, isNew j.log.facts (stored id).fact = false

theorem Journal.Holds.absorb {stored : String → StoredFact T} {total facts more : List (BuildFact T)} {j : Journal T}
    (h : j.Holds stored total facts) (hmore : ∀ f ∈ more, f ∈ total) :
    Journal.Holds stored total (facts ++ more) { j with log := j.log.absorb more } := by
  have hfacts : (j.log.absorb more).facts = merged j.log.facts more := by
    unfold FactLog.absorb
    rw [FactLog.facts_publish, append_unseen]
  refine ⟨h.positioned.publish, h.ordered.publish, ?_, ?_, ?_⟩
  · dsimp only
    rw [hfacts, h.facts_eq, merged_append]
  · intro f hf
    exact (List.mem_append.mp hf).elim (h.within f) (hmore f)
  · intro id hid
    dsimp only
    rw [hfacts]
    exact isNew_merged (h.taken id hid)

theorem Journal.Holds.takeRead {stored : String → StoredFact T} {total facts : List (BuildFact T)} {j : Journal T}
    (hone : OneAcceptance total) (h : j.Holds stored total facts) (ids : List String)
    (hmore : ∀ f ∈ Bring.facts stored (.takeRead ids), f ∈ total) :
    (j.takeRead (ids.map fun id => (id, stored id))).Holds stored total (facts ++ Bring.facts stored (.takeRead ids)) := by
  have hheld : ∀ f ∈ j.log.facts, f ∈ total := by
    intro f hf
    rw [h.facts_eq] at hf
    exact (merged_mem hf).elim (by simp) (h.within f)
  unfold Journal.takeRead
  split
  next hempty =>
    have hnil : ids = [] := by simpa using hempty
    subst hnil
    have hnone : Bring.facts stored (.takeRead []) = [] := by simp [Bring.facts, inWrittenOrder]
    rw [hnone, List.append_nil]
    exact h
  next =>
    have hread : ∀ r ∈ inWrittenOrder (ids.map fun id => (id, stored id)), r.2 = stored r.1 ∧ r.2.fact ∈ total := by
      intro r hr
      refine ⟨?_, hmore _ (List.mem_map.mpr ⟨r, hr, rfl⟩)⟩
      obtain ⟨id, -, rfl⟩ := List.mem_map.mp (mem_inWrittenOrder.mp hr)
      rfl
    obtain ⟨hstored, hnew, hseen⟩ := Taking.records hone hheld _ hread ⟨j.seen, j.nextSeq, [], []⟩
      (by simpa using h.taken)
    rw [List.append_nil] at hnew hseen
    have hlog : j.log.takeStoredAcceptances ((inWrittenOrder (ids.map fun id => (id, stored id))).foldl
        (Taking.record j.log.facts) ⟨j.seen, j.nextSeq, [], []⟩).stored = j.log := by
      rw [hstored]
      rfl
    dsimp only
    rw [hlog]
    have hfacts : (j.log.publish ((inWrittenOrder (ids.map fun id => (id, stored id))).foldl
        (Taking.record j.log.facts) ⟨j.seen, j.nextSeq, [], []⟩).new).facts =
        merged j.log.facts (Bring.facts stored (.takeRead ids)) := by
      rw [FactLog.facts_publish]
      exact hnew
    refine ⟨h.positioned.publish, h.ordered.publish, ?_, ?_, ?_⟩
    · dsimp only
      rw [hfacts, h.facts_eq, merged_append]
    · intro f hf
      exact (List.mem_append.mp hf).elim (h.within f) (hmore f)
    · intro id hid
      dsimp only at hid ⊢
      rw [hfacts]
      exact hseen id hid

theorem Journal.Holds.bring {stored : String → StoredFact T} {total facts : List (BuildFact T)} {j : Journal T}
    (hone : OneAcceptance total) (h : j.Holds stored total facts) (b : Bring T) (hmore : ∀ f ∈ b.facts stored, f ∈ total) :
    (j.bring stored b).Holds stored total (facts ++ b.facts stored) := by
  cases b with
  | absorbFacts more => exact h.absorb hmore
  | absorbBuild more => exact h.absorb hmore
  | takeRead ids => exact h.takeRead hone ids hmore

/-- Whatever the batches and their order, the log holds the facts brought, merged. -/
theorem logOf_holds {stored : String → StoredFact T} {way : List (Bring T)} (hone : OneAcceptance (brought stored way)) :
    (logOf stored way).Positioned ∧ (logOf stored way).Ordered ∧
      (logOf stored way).facts = merged [] (brought stored way) := by
  have hrun : ∀ (rest : List (Bring T)) (j : Journal T) (facts : List (BuildFact T)),
      (∀ b ∈ rest, ∀ f ∈ b.facts stored, f ∈ brought stored way) → j.Holds stored (brought stored way) facts →
        (rest.foldl (Journal.bring stored) j).Holds stored (brought stored way) (facts ++ brought stored rest) := by
    intro rest
    induction rest with
    | nil =>
      intro j facts _ hj
      unfold brought
      rw [List.flatMap_nil, List.append_nil]
      exact hj
    | cons b rest ih =>
      intro j facts hwithin hj
      have hnext := ih _ _ (fun c hc => hwithin c (List.mem_cons_of_mem b hc))
        (hj.bring hone b (hwithin b List.mem_cons_self))
      rw [List.append_assoc] at hnext
      exact hnext
  have hstart : (Journal.opened : Journal T).Holds stored (brought stored way) [] :=
    ⟨FactLog.positioned_empty, FactLog.ordered_empty, rfl, by simp, by simp [Journal.opened]⟩
  have hend := hrun way .opened [] (fun b hb f hf => List.mem_flatMap.mpr ⟨b, hb, hf⟩) hstart
  exact ⟨hend.positioned, hend.ordered, hend.facts_eq⟩

theorem known_merged (facts : List (BuildFact T)) (id : String) : known (merged [] facts) id = known facts id := by
  rw [Bool.eq_iff_iff]
  constructor
  · intro h
    obtain ⟨f, hf, hid⟩ := List.any_eq_true.mp h
    exact List.any_eq_true.mpr ⟨f, (merged_mem hf).elim (by simp) fun hf => hf, hid⟩
  · intro h
    obtain ⟨f, hf, hid⟩ := List.any_eq_true.mp h
    have hnew : isNew (merged [] facts) f = false := isNew_merged_mem hf
    cases f with
    | forget other => cases hid
    | accepted a =>
      have ha : a.buildId = id := by simpa using hid
      simpa [isNew, ha] using hnew

theorem forget_mem_merged (facts : List (BuildFact T)) (id : String) : .forget id ∈ merged [] facts ↔ .forget id ∈ facts := by
  constructor
  · exact fun h => (merged_mem h).elim (by simp) fun h => h
  · intro h
    have hnew : isNew (merged [] facts) (.forget id) = false := isNew_merged_mem h
    simpa [isNew] using hnew

/-- A fact the merged facts hold makes no Build known that was not. -/
theorem known_snoc_of_old {facts : List (BuildFact T)} {f : BuildFact T} (hold : isNew (merged [] facts) f = false)
    (id : String) : known facts id = known (facts ++ [f]) id := by
  cases f with
  | forget other => simp [known]
  | accepted a =>
    have hknown : known facts a.buildId = true := by simpa [isNew, known_merged] using hold
    rw [known_append]
    by_cases hid : a.buildId = id
    · rw [← hid, hknown]
      rfl
    · simp [known, hid]

theorem forget_snoc_of_old {facts : List (BuildFact T)} {f : BuildFact T} (hold : isNew (merged [] facts) f = false)
    (id : String) : .forget id ∈ facts ++ [f] ↔ .forget id ∈ facts := by
  cases f with
  | accepted a => simp
  | forget other =>
    have hin : .forget other ∈ merged [] facts := by simpa [isNew] using hold
    have hfacts := (forget_mem_merged facts other).mp hin
    constructor
    · intro h
      rcases List.mem_append.mp h with h | h
      · exact h
      · cases List.mem_singleton.mp h
        exact hfacts
    · exact fun h => List.mem_append_left _ h

/-- What the merged facts answer: a Build forgotten in time is gone, any other is as its acceptance says. -/
theorem answer_merged (facts : List (BuildFact T)) (id : String) :
    (answer (merged [] facts) id).isSome = true ↔ known facts id = true ∧ (.forget id ∈ facts → Late facts id) := by
  induction facts using List.reverseRecOn with
  | nil => simp [merged, answer, known]
  | append_singleton facts f ih =>
    have hstep : merged [] (facts ++ [f]) = if isNew (merged [] facts) f then merged [] facts ++ [f] else merged [] facts := by
      rw [merged_append]
      rfl
    cases hnew : isNew (merged [] facts) f with
    | false =>
      have hsame := known_snoc_of_old hnew id
      rw [hstep, hnew, if_neg Bool.false_ne_true, ih, hsame, forget_snoc_of_old hnew, late_snoc hsame]
    | true =>
      rw [hstep, hnew, if_pos rfl, answer_append]
      cases f with
      | accepted a =>
        by_cases hid : a.buildId = id
        · subst hid
          have hunknown : known facts a.buildId = false := by simpa [isNew, known_merged] using hnew
          have hlate : .forget a.buildId ∈ facts ++ [.accepted a] → Late (facts ++ [.accepted a]) a.buildId := by
            intro hmem
            exact late_snoc_accepted hunknown (by simpa using hmem)
          have hanswer : (answerAfter a.buildId (answer (merged [] facts) a.buildId) (.accepted a)).isSome = true := by
            rw [answerAfter, if_pos rfl, Option.isSome_or]
            exact Bool.or_true _
          exact ⟨fun _ => ⟨by simp [known], hlate⟩, fun _ => hanswer⟩
        · have hother : (BuildFact.accepted a).buildId ≠ id := hid
          have hsame : known facts id = known (facts ++ [.accepted a]) id := by simp [known, hid]
          rw [answerAfter_other _ hother, ih, hsame, late_snoc hsame]
          simp
      | forget other =>
        have hsame : known facts id = known (facts ++ [.forget other]) id := by simp [known]
        by_cases hid : other = id
        · subst hid
          have hnot : .forget other ∉ facts := by
            rw [← forget_mem_merged]
            simpa [isNew] using hnew
          have hanswer : answerAfter other (answer (merged [] facts) other) (.forget other) = none := if_pos rfl
          rw [hanswer]
          refine ⟨fun hsome => (by cases hsome), fun hlate => ?_⟩
          exact absurd ((late_snoc hsame).mp (hlate.2 (by simp))).forgotten hnot
        · have hother : (BuildFact.forget other : BuildFact T).buildId ≠ id := hid
          have hne : id ≠ other := fun heq => hid heq.symm
          rw [answerAfter_other _ hother, ih, hsame, late_snoc hsame]
          simp [hne]

/-- A log that answers no Build it holds the forgetting of, its acceptance order that of the
acceptances it holds. -/
def FactLog.Settled (log : FactLog T) : Prop :=
  (∀ id, .forget id ∈ log.facts → log.readOwn id = .error (.unknownBuild id)) ∧
    ∀ stamp, stamp ∈ log.acceptedOrder ↔ ∃ a, .accepted a ∈ log.facts ∧ a.stamp = stamp

/-- The two logs answer every Build alike, and each is settled. -/
def Converged (log other : FactLog T) : Prop :=
  (∀ id, log.readOwn id = other.readOwn id) ∧ log.Settled ∧ other.Settled

theorem settled_iff {stored : String → StoredFact T} {way : List (Bring T)} (hone : OneAcceptance (brought stored way)) :
    (logOf stored way).Settled ↔ AcceptedFirst (brought stored way) := by
  obtain ⟨hpositioned, hordered, hfacts⟩ := logOf_holds hone
  have hgone : ∀ id, (logOf stored way).readOwn id = .error (.unknownBuild id) ↔
      answer (merged [] (brought stored way)) id = none := by
    intro id
    rw [hpositioned.readOwn_eq, hfacts]
    cases answer (merged [] (brought stored way)) id with
    | none => simp
    | some a => simp
  rw [acceptedFirst_iff]
  constructor
  · rintro ⟨hforgotten, -⟩ id hlate
    have hsome := (answer_merged (brought stored way) id).mpr ⟨hlate.known, fun _ => hlate⟩
    have hnone := (hgone id).mp (hforgotten id (by rw [hfacts, forget_mem_merged]; exact hlate.forgotten))
    rw [hnone] at hsome
    cases hsome
  · intro hnever
    refine ⟨fun id hid => ?_, hordered⟩
    rw [hfacts, forget_mem_merged] at hid
    rw [hgone, ← Option.not_isSome_iff_eq_none]
    intro hsome
    exact absurd (((answer_merged _ _).mp hsome).2 hid) (hnever id)

/-- Committed facts brought in two ways: the logs converge exactly when, in both, no Build's acceptance comes only after
its forgetting. -/
theorem build_logs_converge_iff (stored : String → StoredFact T) (way other : List (Bring T))
    (hone : OneAcceptance (brought stored way)) (hsame : ∀ f, f ∈ brought stored way ↔ f ∈ brought stored other) :
    Converged (logOf stored way) (logOf stored other) ↔
      AcceptedFirst (brought stored way) ∧ AcceptedFirst (brought stored other) := by
  have hone' : OneAcceptance (brought stored other) :=
    fun a b ha hb => hone a b ((hsame _).mpr ha) ((hsame _).mpr hb)
  unfold Converged
  rw [settled_iff hone, settled_iff hone']
  refine ⟨fun h => h.2, fun h => ⟨fun id => ?_, h⟩⟩
  obtain ⟨hpositioned, -, hfacts⟩ := logOf_holds hone
  obtain ⟨hpositioned', -, hfacts'⟩ := logOf_holds hone'
  rw [hpositioned.readOwn_eq, hpositioned'.readOwn_eq, hfacts, hfacts']
  have hknown : known (brought stored way) id = known (brought stored other) id := by
    rw [Bool.eq_iff_iff]
    unfold known
    rw [List.any_eq_true, List.any_eq_true]
    constructor
    · rintro ⟨f, hf, hid⟩
      exact ⟨f, (hsame f).mp hf, hid⟩
    · rintro ⟨f, hf, hid⟩
      exact ⟨f, (hsame f).mpr hf, hid⟩
  have hboth : (answer (merged [] (brought stored way)) id).isSome = (answer (merged [] (brought stored other)) id).isSome := by
    rw [Bool.eq_iff_iff, answer_merged, answer_merged, hknown, hsame]
    have hnever := (acceptedFirst_iff _).mp h.1 id
    have hnever' := (acceptedFirst_iff _).mp h.2 id
    simp [hnever, hnever']
  cases hanswer : answer (merged [] (brought stored way)) id with
  | none =>
    rw [hanswer] at hboth
    have hnone : answer (merged [] (brought stored other)) id = none := by
      rw [← Option.not_isSome_iff_eq_none, ← hboth]
      exact Bool.false_ne_true
    rw [hnone]
  | some a =>
    rw [hanswer] at hboth
    obtain ⟨c, hc⟩ := Option.isSome_iff_exists.mp hboth.symm
    have hmem := fun (facts : List (BuildFact T)) (d : BuildAccepted T) (hd : answer (merged [] facts) id = some d) =>
      (answer_mem hd).imp_left fun hmem => (merged_mem hmem).elim (by simp) fun hmem => hmem
    obtain ⟨ha, haid⟩ := hmem _ _ hanswer
    obtain ⟨hc', hcid⟩ := hmem _ _ hc
    rw [hc, hone a c ha ((hsame _).mpr hc') (haid.trans hcid.symm)]

/-- The records of a Build and its forgetting, as a store holds them. -/
def sampleStored : String → StoredFact Unit
  | "l1" => ⟨1, .accepted (Builds.sampleBuild "b1" 1)⟩
  | _ => ⟨2, .forget "b1"⟩

/-- A take of both records at once, and an absorption in the order they were committed. -/
theorem build_logs_converge_sample :
    Converged (logOf sampleStored [.takeRead ["l2", "l1"]])
      (logOf sampleStored [.absorbFacts [.accepted (Builds.sampleBuild "b1" 1)], .absorbBuild [.forget "b1"]]) := by
  have hway : brought sampleStored [.takeRead ["l2", "l1"]] = [.accepted (Builds.sampleBuild "b1" 1), .forget "b1"] := by
    decide +kernel
  have hother : brought sampleStored [.absorbFacts [.accepted (Builds.sampleBuild "b1" 1)], .absorbBuild [.forget "b1"]] =
      [.accepted (Builds.sampleBuild "b1" 1), .forget "b1"] := by
    decide +kernel
  refine (build_logs_converge_iff sampleStored _ _ ?_ ?_).mpr ?_
  · rw [hway]
    intro a b ha hb _
    simp only [List.mem_cons, BuildFact.accepted.injEq, reduceCtorEq, List.not_mem_nil, or_false] at ha hb
    rw [ha, hb]
  · rw [hway, hother]
    exact fun _ => Iff.rfl
  · rw [hway, hother]
    have hfirst : AcceptedFirst [.accepted (Builds.sampleBuild "b1" 1), .forget "b1"] := by
      intro before id after hfacts hafter
      match before, hfacts with
      | [], hfacts => cases hfacts
      | [_], hfacts =>
        cases hfacts
        cases hafter
      | _ :: _ :: _, hfacts => simp at hfacts
    exact ⟨hfirst, hfirst⟩

/-- The forgetting is absorbed before the acceptance: the log holds it and answers the Build all the same. -/
theorem forgotten_build_answered_again :
    .forget "b1" ∈ (logOf sampleStored [.absorbFacts [.forget "b1"], .absorbBuild [.accepted (Builds.sampleBuild "b1" 1)]]).facts ∧
      (logOf sampleStored [.absorbFacts [.forget "b1"], .absorbBuild [.accepted (Builds.sampleBuild "b1" 1)]]).readOwn "b1" =
        .ok (Builds.sampleBuild "b1" 1) ∧
      (logOf sampleStored [.takeRead ["l1", "l2"]]).readOwn "b1" = .error (.unknownBuild "b1") := by
  decide +kernel

end DistributedMesh.Build
