import DistributedMesh.DriveRuns

namespace DistributedMesh.Driving

open GuardedRuns Drives

/-- Before a stop every running flag set has its holder, and no task is aborted. -/
structure Alive (s : Drives) : Prop where
  holder : s.stopped = false → ∀ d < s.made, (s.drive d).running = true → ∃ a ∈ s.actors, a.flag = some d
  aborted : s.stopped = false → s.aborted = []
  drained : ∀ a ∈ s.actors, a.drained ≠ none → s.stopped = true

section Alive

variable {s s' : Drives} {i d : Nat} {a a' b : Actor} {e : Effect} {m : Move}

theorem Acts.drained (h : Acts s a d e a') : a'.drained = none := by
  cases h
  all_goals rfl

theorem Acts.running (h : Acts s a d e a') (hr : (e.on (s.drive d)).running = true) :
    a'.flag = some d ∨ a.flag ≠ some d ∧ (s.drive d).running = true := by
  rcases h.flag with ⟨hsame, he⟩ | ⟨-, -, rfl⟩ | ⟨-, htakes, -, -⟩
  · by_cases hflag : a.flag = some d
    · exact .inl (hsame.trans hflag)
    · refine .inr ⟨hflag, ?_⟩
      cases h
      case swapped =>
        cases hrun : (s.drive d).running with
        | true => rfl
        | false =>
          rw [hrun] at hsame
          cases hsame
      case joined hrun => exact hrun
      case marked => cases hsame
      case unreadReleases | releases => exact absurd rfl he
      all_goals exact hr
  · cases hr
  · exact .inl htakes

theorem Alive.goesTo (h : Alive s) (hi : s.actors[i]? = some a) (hflag : ∀ k, a.flag = some k → a'.flag = some k)
    (hdrained : a'.drained = none) : Alive (s.goesTo i a') := by
  refine ⟨fun hs d hd hr => ?_, h.aborted, ?_⟩
  · exact exists_mem_set hi (h.holder hs d hd hr) (hflag d)
  · exact forall_mem_set h.drained fun hne => absurd hdrained hne

theorem Alive.begins (h : Alive s) (hdrained : a.drained = none) : Alive { s with actors := s.actors ++ [a] } := by
  refine ⟨fun hs d hd hr => ?_, h.aborted, fun b hb hne => ?_⟩
  · obtain ⟨b, hb, hbd⟩ := h.holder hs d hd hr
    exact ⟨b, List.mem_append_left _ hb, hbd⟩
  · rcases List.mem_append.mp hb with hb | hb
    · exact h.drained b hb hne
    · rw [List.mem_singleton.mp hb] at hne
      exact absurd hdrained hne

theorem alive_acts (h : Alive s) (hi : s.actors[i]? = some a) (hacts : Acts s a d e a') :
    Alive ((s.effect d e).goesTo i a') := by
  refine ⟨fun hs d' hd' hr => ?_, h.aborted, forall_mem_set h.drained fun hne => absurd hacts.drained hne⟩
  have hother : (s.drive d').running = true → a.flag ≠ some d' → ∃ b ∈ s.actors.set i a', b.flag = some d' := by
    exact fun hr hne => exists_mem_set hi (h.holder hs d' hd' hr) fun hold => absurd hold hne
  change ((s.effect d e).drive d').running = true at hr
  by_cases heq : d' = d
  · subst heq
    rw [effect_drive_self] at hr
    rcases hacts.running hr with hflag | ⟨hne, hrun⟩
    · exact ⟨a', mem_set_self hi, hflag⟩
    · exact hother hrun hne
  · rw [effect_drive_ne heq] at hr
    refine hother hr fun hflag => heq ?_
    have hdrive := drive_of_flag hflag
    rw [hacts.drive.1] at hdrive
    exact (Option.some.inj hdrive).symm

theorem Alive.make (h : Alive s) (build : String) : Alive (s.make build) := by
  refine ⟨fun hs d hd hr => ?_, h.aborted, h.drained⟩
  by_cases heq : d = s.made
  · subst heq
    rw [make_drive_made] at hr
    cases hr
  · have hlt : d < s.made := by
      change d < s.made + 1 at hd
      omega
    rw [make_drive_of_lt hlt] at hr
    exact h.holder hs d hlt hr

theorem alive_step (h : Alive s) (m : Move) : Alive (step s m) := by
  have hdoes := step_does s m
  generalize step s m = s' at hdoes ⊢
  cases hdoes with
  | nothing => exact h
  | called m ha =>
    rcases ha with rfl | ⟨k, build, rfl⟩
    · exact h.begins rfl
    · exact h.begins rfl
  | wrote m hunwritten hheld => exact h.begins rfl
  | acted hi hacts hm => exact alive_acts h hi hacts
  | reading hi hfree hheld => exact h.goesTo hi nofun rfl
  | made hi hfree hnone => exact (h.make _).goesTo hi nofun rfl
  | replaced hi hended => exact (h.make _).goesTo hi nofun rfl
  | @spawned i d hi =>
    refine ⟨fun hs d' hd' hr => ?_, h.aborted, fun b hb hne => ?_⟩
    · obtain ⟨b, hb, hbd⟩ := h.holder hs d' hd' hr
      by_cases heq : b = .swapped d false
      · subst heq
        cases hbd
        exact ⟨_, List.mem_append_right _ (List.mem_singleton_self _), rfl⟩
      · exact ⟨b, List.mem_append_left _ (mem_set_of_mem hi hb heq), hbd⟩
    · rcases List.mem_append.mp hb with hb | hb
      · rcases List.mem_or_eq_of_mem_set hb with hb | rfl
        · exact h.drained b hb hne
        · exact absurd rfl hne
      · rw [List.mem_singleton.mp hb] at hne
        exact absurd rfl hne
  | @forgot i d a hi ha hfree =>
    have hforgot : Alive (s.forget d) := by
      rw [forget_eq]
      exact ⟨h.holder, h.aborted, h.drained⟩
    refine hforgot.goesTo (getElem?_forget hi d) ?_ rfl
    rcases ha with rfl | rfl
    all_goals nofun
  | drained hi hfree => exact ⟨nofun, nofun, fun _ _ _ => rfl⟩
  | @aborted i drained hi =>
    have hstopped := h.drained _ (List.mem_of_getElem? hi) nofun
    refine ⟨fun hs => ?_, fun hs => ?_, fun _ _ _ => hstopped⟩
    · change s.stopped = false at hs
      rw [hstopped] at hs
      cases hs
    · change s.stopped = false at hs
      rw [hstopped] at hs
      cases hs
  | returned hi hover =>
    have hstopped := h.drained _ (List.mem_of_getElem? hi) nofun
    refine ⟨fun hs => ?_, h.aborted, fun _ _ _ => hstopped⟩
    change s.stopped = false at hs
    rw [hstopped] at hs
    cases hs
  | @began i d hi =>
    have hgoes : Alive (s.goesTo i (.running d)) := h.goesTo hi (fun _ hk => hk) rfl
    exact ⟨hgoes.holder, hgoes.aborted, hgoes.drained⟩
  | cancelled hi haborted ha =>
    have hstopped : s.stopped = true := by
      by_contra hs
      rw [h.aborted (Bool.eq_false_of_not_eq_true hs)] at haborted
      cases haborted
    refine ⟨fun hs => ?_, h.aborted, forall_mem_set h.drained fun hne => absurd rfl hne⟩
    change s.stopped = false at hs
    rw [hstopped] at hs
    cases hs

theorem alive_new : Alive Drives.new := ⟨nofun, fun _ => rfl, nofun⟩

end Alive

/-- The drive that a task begins a run of next. -/
def Actor.due : Actor → Option Nat
  | .spawned d => some d
  | .starting d => some d
  | .settling d _ true => some d
  | _ => none

/-- The drive that a task runs again if its run waits and the drive is flagged. -/
def Actor.repeats : Actor → Option Nat
  | .running d => some d
  | .returned d .stalled => some d
  | _ => none

/-- The drive that is ended next. -/
def Actor.ending : Actor → Option Nat
  | .marked d => some d
  | .unreadUnwrote d => some d
  | .unwrote d _ => some d
  | _ => none

/-- A run of the drive is to begin, or its end to come. -/
def Bound (s : Drives) (d : Nat) : Prop :=
  (∃ a ∈ s.actors, a.due = some d) ∨ ((s.drive d).again = true ∧ ∃ a ∈ s.actors, a.repeats = some d) ∨
    ∃ a ∈ s.actors, a.ending = some d

/-- Since so many runs had begun a run of the drive's Build began, or the drive ended, or one of these is to come. -/
structure Followed (n d : Nat) (s : Drives) : Prop where
  known : d < s.made
  length : n ≤ s.runs.length
  follows : (s.drive d).build ∈ s.runs.drop n ∨ (s.drive d).ended = true ∨ Bound s d

section Followed

variable {s s' : Drives} {i d n : Nat} {a a' b : Actor} {e : Effect} {m : Move}

theorem flag_of_due (h : a.due = some d) : a.flag = some d := by
  unfold Actor.due at h
  split at h
  all_goals cases h
  all_goals rfl

theorem flag_of_repeats (h : a.repeats = some d) : a.flag = some d := by
  unfold Actor.repeats at h
  split at h
  all_goals cases h
  all_goals rfl

theorem flag_of_ending (h : a.ending = some d) : a.flag = some d := by
  unfold Actor.ending at h
  split at h
  all_goals cases h
  all_goals rfl

/-- What is bound holds the drive's flag. -/
theorem Bound.flagged (h : Bound s d) : ∃ a ∈ s.actors, a.flag = some d := by
  rcases h with ⟨a, ha, hd⟩ | ⟨-, a, ha, hd⟩ | ⟨a, ha, hd⟩
  · exact ⟨a, ha, flag_of_due hd⟩
  · exact ⟨a, ha, flag_of_repeats hd⟩
  · exact ⟨a, ha, flag_of_ending hd⟩

/-- Those bound to the drive stay, and its flag to run again. -/
theorem Bound.mono (h : Bound s d)
    (hactors : ∀ b ∈ s.actors, b.flag = some d → b ∈ s'.actors)
    (hagain : (s.drive d).again = true → (s'.drive d).again = true) : Bound s' d := by
  rcases h with ⟨b, hb, hd⟩ | ⟨hag, b, hb, hd⟩ | ⟨b, hb, hd⟩
  · exact .inl ⟨b, hactors b hb (flag_of_due hd), hd⟩
  · exact .inr (.inl ⟨hagain hag, b, hactors b hb (flag_of_repeats hd), hd⟩)
  · exact .inr (.inr ⟨b, hactors b hb (flag_of_ending hd), hd⟩)

theorem mem_set_of_flag (hi : s.actors[i]? = some a) (hflag : a.flag ≠ some d) (hb : b ∈ s.actors) (hbd : b.flag = some d) :
    b ∈ s.actors.set i a' := by
  refine mem_set_of_mem hi hb ?_
  rintro rfl
  exact hflag hbd

/-- The flag to run again is reset by a task that holds the drive's. -/
theorem Acts.again (h : Acts s a d e a') (hflag : a.flag ≠ some d) (hag : (s.drive d).again = true) :
    (e.on (s.drive d)).again = true := by
  cases h
  case resets => exact absurd rfl hflag
  case settles => exact absurd rfl hflag
  case flagged | rejoined => rfl
  all_goals exact hag

/-- A task that holds the drive's flag goes on with what the drive is bound to. -/
theorem Acts.bound (h : Acts s a d e a') (hstopped : s.stopped = false)
    (hbound : a.due = some d ∨ (s.drive d).again = true ∧ a.repeats = some d ∨ a.ending = some d) :
    (e.on (s.drive d)).ended = true ∨
      a'.due = some d ∨ (e.on (s.drive d)).again = true ∧ a'.repeats = some d ∨ a'.ending = some d := by
  cases h
  case resets => exact .inr (.inl rfl)
  case repeats => exact .inr (.inl rfl)
  case stalls =>
    rcases hbound with hd | ⟨hag, -⟩ | hd
    · cases hd
    · exact .inr (.inr (.inl ⟨hag, rfl⟩))
    · cases hd
  case finishes t => exact .inl (ended_finishes t)
  case loses => exact .inl ended_loses
  case unwrites => exact .inr (.inr (.inr rfl))
  case unreads => exact .inr (.inr (.inr rfl))
  case unreadFinishes => exact .inl (ended_finishes _)
  case told => exact .inl (ended_finishes _)
  case settles hfree hs =>
    rcases hbound with hd | ⟨hag, -⟩ | hd
    · cases hd
    · rw [hag]
      exact .inr (.inl rfl)
    · cases hd
  case settlesNot how hfree hs =>
    rcases hbound with hd | ⟨-, hd⟩ | hd
    · cases hd
    · cases how with
      | stalled =>
        rw [hs rfl] at hstopped
        cases hstopped
      | terminal | roleLost | unwritten => cases hd
    · cases hd
  case swapped =>
    rcases hbound with hd | ⟨-, hd⟩ | hd
    all_goals cases hd
  all_goals
    rcases hbound with hd | ⟨-, hd⟩ | hd
    all_goals cases hd

theorem bound_acts (hs : Sound s) (hstopped : s.stopped = false) (h : Bound s d) (hi : s.actors[i]? = some a) {d' : Nat}
    (hacts : Acts s a d' e a') :
    ((s.effect d' e).drive d).ended = true ∨ Bound ((s.effect d' e).goesTo i a') d := by
  by_cases hflag : a.flag = some d
  · have hd : d' = d := by
      have hdrive := drive_of_flag hflag
      rw [hacts.drive.1] at hdrive
      exact Option.some.inj hdrive
    subst hd
    have ha := List.mem_of_getElem? hi
    -- the one bound is the one that moves
    have hself : ∀ b ∈ s.actors, b.flag = some d' → b = a := by
      intro b hb hbd
      obtain ⟨j, hj⟩ := List.mem_iff_getElem?.mp hb
      obtain rfl := hs.flags j i b a d' hj hi hbd hflag
      exact Option.some.inj (hj.symm.trans hi)
    have hbound : a.due = some d' ∨ (s.drive d').again = true ∧ a.repeats = some d' ∨ a.ending = some d' := by
      rcases h with ⟨b, hb, hbd⟩ | ⟨hag, b, hb, hbd⟩ | ⟨b, hb, hbd⟩
      · exact .inl (hself b hb (flag_of_due hbd) ▸ hbd)
      · exact .inr (.inl ⟨hag, hself b hb (flag_of_repeats hbd) ▸ hbd⟩)
      · exact .inr (.inr (hself b hb (flag_of_ending hbd) ▸ hbd))
    have hmem : a' ∈ ((s.effect d' e).goesTo i a').actors := mem_set_self hi
    rw [effect_drive_self]
    rcases hacts.bound hstopped hbound with hended | hd | ⟨hag, hd⟩ | hd
    · exact .inl hended
    · exact .inr (.inl ⟨a', hmem, hd⟩)
    · refine .inr (.inr (.inl ⟨?_, a', hmem, hd⟩))
      change ((s.effect d' e).drive d').again = true
      rw [effect_drive_self]
      exact hag
    · exact .inr (.inr (.inr ⟨a', hmem, hd⟩))
  · refine .inr (h.mono (fun b hb hbd => mem_set_of_flag hi hflag hb hbd) fun hag => ?_)
    change ((s.effect d' e).drive d).again = true
    by_cases heq : d = d'
    · subst heq
      rw [effect_drive_self]
      exact hacts.again hflag hag
    · rw [effect_drive_ne heq]
      exact hag

theorem Followed.mono (h : Followed n d s) (hmade : s.made ≤ s'.made) {begun : List String} (hruns : s'.runs = s.runs ++ begun)
    (hbuild : (s'.drive d).build = (s.drive d).build) (hended : (s.drive d).ended = true → (s'.drive d).ended = true)
    (hbound : Bound s d → (s.drive d).build ∈ begun ∨ (s'.drive d).ended = true ∨ Bound s' d) : Followed n d s' := by
  have hdrop : s'.runs.drop n = s.runs.drop n ++ begun := by
    rw [hruns, List.drop_append_of_le_length h.length]
  refine ⟨Nat.lt_of_lt_of_le h.known hmade, ?_, ?_⟩
  · rw [hruns, List.length_append]
    exact Nat.le_add_right_of_le h.length
  · rw [hdrop, hbuild]
    rcases h.follows with hrun | hend | hbind
    · exact .inl (List.mem_append_left _ hrun)
    · exact .inr (.inl (hended hend))
    · rcases hbound hbind with hrun | hrest
      · exact .inl (List.mem_append_right _ hrun)
      · exact .inr hrest

/-- A step that begins no run, and leaves the drive and those bound to it. -/
theorem Followed.stays (h : Followed n d s) (hmade : s.made ≤ s'.made) (hruns : s'.runs = s.runs) (hdrive : s'.drive d = s.drive d)
    (hactors : ∀ b ∈ s.actors, b.flag = some d → b ∈ s'.actors) : Followed n d s' := by
  refine h.mono hmade (hruns.trans (List.append_nil _).symm) (by rw [hdrive]) (fun hend => hdrive ▸ hend) fun hbind => ?_
  exact .inr (.inr (hbind.mono hactors fun hag => hdrive ▸ hag))

theorem followed_step (hs : Sound s) (hal : Alive s) (h : Followed n d s) (m : Move) (hstopped : (step s m).stopped = false) :
    Followed n d (step s m) := by
  have hdoes := step_does s m
  generalize step s m = s' at hdoes hstopped ⊢
  have hset : ∀ {i : Nat} {a : Actor} (a' : Actor), s.actors[i]? = some a → a.flag = none →
      ∀ b ∈ s.actors, b.flag = some d → b ∈ s.actors.set i a' := by
    intro i a a' hi hnone b hb hbd
    refine mem_set_of_flag hi ?_ hb hbd
    rw [hnone]
    nofun
  cases hdoes with
  | nothing => exact h
  | called m ha => exact h.stays (Nat.le_refl _) rfl rfl fun b hb _ => List.mem_append_left _ hb
  | wrote m hunwritten hheld => exact h.stays (Nat.le_refl _) rfl rfl fun b hb _ => List.mem_append_left _ hb
  | acted hi hacts hm =>
    refine h.mono (Nat.le_refl _) (List.append_nil _).symm (effect_build ..) ended_effect fun hbind => .inr ?_
    exact bound_acts hs hstopped hbind hi hacts
  | reading hi hfree hheld => exact h.stays (Nat.le_refl _) rfl rfl (hset _ hi rfl)
  | made hi hfree hnone => exact h.stays (Nat.le_succ _) rfl (make_drive_of_lt h.known) (hset _ hi rfl)
  | replaced hi hended => exact h.stays (Nat.le_succ _) rfl (make_drive_of_lt h.known) (hset _ hi rfl)
  | @spawned i d' hi =>
    refine h.mono (Nat.le_refl _) (List.append_nil _).symm rfl id fun hbind => .inr (.inr ?_)
    by_cases heq : d' = d
    · subst heq
      exact .inl ⟨_, List.mem_append_right _ (List.mem_singleton_self _), rfl⟩
    · refine hbind.mono (fun b hb hbd => List.mem_append_left _ (mem_set_of_flag hi ?_ hb hbd)) id
      exact fun hflag => heq (Option.some.inj hflag)
  | @forgot i d' a hi ha hfree =>
    have hnone : a.flag = none := by
      rcases ha with rfl | rfl
      all_goals rfl
    refine h.stays ?_ ?_ ?_ fun b hb hbd => ?_
    · exact Nat.le_of_eq (forget_made s d').symm
    · change (s.forget d').runs = s.runs
      rw [forget_eq]
    · change (s.forget d').drive d = s.drive d
      rw [forget_drive]
    · change b ∈ (s.forget d').actors.set i .gone
      rw [forget_actors]
      exact hset _ hi hnone b hb hbd
  | drained hi hfree => cases hstopped
  | aborted hi => exact h.stays (Nat.le_refl _) rfl rfl (hset _ hi rfl)
  | returned hi hover => exact h.stays (Nat.le_refl _) rfl rfl (hset _ hi rfl)
  | @began i d' hi =>
    refine h.mono (Nat.le_refl _) rfl rfl id fun hbind => ?_
    by_cases heq : d' = d
    · subst heq
      exact .inl (List.mem_singleton_self _)
    · refine .inr (.inr (hbind.mono (fun b hb hbd => mem_set_of_flag hi ?_ hb hbd) id))
      exact fun hflag => heq (Option.some.inj hflag)
  | cancelled hi haborted ha =>
    rw [hal.aborted hstopped] at haborted
    cases haborted

/-- An `ensure` that saw the running flag set flags the drive to run again, while its holder has not let it go. -/
theorem bound_of_flagged (hs : Sound s) (hal : Alive s) (hi : s.actors[i]? = some (.swapped d true)) (hstopped : s.stopped = false) :
    ((s.effect d (.flags true)).drive d).ended = true ∨
      Bound ((s.effect d (.flags true)).goesTo i (.answered .ensure d)) d := by
  have hmem := List.mem_of_getElem? hi
  have hagain : ((s.effect d (.flags true)).drive d).again = true := by
    rw [effect_drive_self]
    rfl
  have hended : (s.drive d).ended = true → ((s.effect d (.flags true)).drive d).ended = true := ended_effect
  rcases hs.fits _ hmem d rfl with hrunning | hend
  · obtain ⟨b, hb, hflag⟩ := hal.holder hstopped d (hs.known _ hmem d rfl) hrunning
    have hstays : b ∈ s.actors.set i (.answered .ensure d) := mem_set_of_flag hi nofun hb hflag
    have hfits := hs.fits b hb d (drive_of_flag hflag)
    -- the holder is no other `ensure`, and no task that settles: these hold the mutex
    have hunlocked : b.lock ≠ some .tasks := by
      intro hlock
      obtain ⟨j, hj⟩ := List.mem_iff_getElem?.mp hb
      obtain rfl := hs.locks j i b _ .tasks hj hi hlock rfl
      obtain rfl := Option.some.inj (hi.symm.trans hj)
      cases hflag
    cases b
    case swapped => exact absurd rfl hunlocked
    case settling => exact absurd rfl hunlocked
    case spawned | starting => exact .inr (.inl ⟨_, hstays, hflag⟩)
    case running => exact .inr (.inr (.inl ⟨hagain, _, hstays, hflag⟩))
    case marked | unreadUnwrote | unwrote => exact .inr (.inr (.inr ⟨_, hstays, hflag⟩))
    case unreadFinished => exact .inl (hended hfits.2)
    case finished => exact .inl (hended hfits.2.1)
    case returned d' how =>
      cases how with
      | stalled => exact .inr (.inr (.inl ⟨hagain, _, hstays, hflag⟩))
      | terminal | roleLost | unwritten => exact .inl (hended (hfits.2 nofun))
    all_goals cases hflag
  · exact .inl (hended hend)

theorem Drive.ended_of_completed {dr : Drive} (h : dr.completed = true) : dr.ended = true := by
  unfold Drive.completed at h
  unfold Drive.ended
  rw [beq_iff_eq] at h
  rw [h]
  rfl

/-- What an `ensure` answers is followed by a run, or by the drive's end. -/
theorem followed_of_answers (hs : Sound s) (ho : Owing s) (hal : Alive s) (hi : s.actors[i]? = some a)
    (hnot : ∀ d, a ≠ .answered .ensure d) (hanswers : (step s (.goes i)).actors[i]? = some (.answered .ensure d))
    (hstopped : (step s (.goes i)).stopped = false) :
    Followed (step s (.goes i)).runs.length d (step s (.goes i)) := by
  have hs' := sound_step hs (.goes i)
  refine ⟨hs'.known _ (List.mem_of_getElem? hanswers) d rfl, Nat.le_refl _, .inr ?_⟩
  have hmoved : ∀ {j : Nat} {b : Actor}, (s.actors.set j b)[i]? = some (.answered .ensure d) →
      i = j ∧ Actor.answered .ensure d = b := by
    intro j b hset
    obtain h | ⟨-, hwas⟩ := getElem?_of_set hset
    · exact h
    · exact absurd (Option.some.inj (hi.symm.trans hwas)) (hnot d)
  have hdoes := step_does s (.goes i)
  generalize step s (.goes i) = s' at hdoes hanswers hstopped ⊢
  cases hdoes with
  | @acted _ j d' b b' e hj hacts hm =>
    obtain ⟨rfl, rfl⟩ := hmoved hanswers
    obtain rfl := hacts.drive.2 d rfl
    cases hacts
    case completed hc => exact .inl (ended_effect (Drive.ended_of_completed hc))
    case unwritten hu =>
      have hmem := List.mem_of_getElem? hj
      have hends : EndsSoon s d := ho.unwritten d (hs.known _ hmem d rfl) hu
      rcases hends with hended | ⟨b, hb, hbd⟩
      · exact .inl (ended_effect hended)
      · refine .inr (.inr (.inr ⟨b, mem_set_of_flag hj nofun hb (unwriting_not_working hbd).2, ?_⟩))
        cases b
        case unreadUnwrote | unwrote => exact hbd
        all_goals cases hbd
    case stopped hstop =>
      change s.stopped = false at hstopped
      rw [hstop] at hstopped
      cases hstopped
    case flagged => exact bound_of_flagged hs hal hj hstopped
  | @spawned _ d' hj =>
    have hlt := (List.getElem?_eq_some_iff.mp hi).1
    change (s.actors.set i (.answered .ensure d') ++ [.spawned d'])[i]? = _ at hanswers
    rw [List.getElem?_append_left (by rw [List.length_set]; exact hlt)] at hanswers
    obtain ⟨-, heq⟩ := hmoved hanswers
    cases heq
    exact .inr (.inl ⟨_, List.mem_append_right _ (List.mem_singleton_self _), rfl⟩)
  | nothing => exact absurd (Option.some.inj (hi.symm.trans hanswers)) (hnot d)
  | called | wrote =>
    rw [List.getElem?_append_left (List.getElem?_eq_some_iff.mp hi).1] at hanswers
    exact absurd (Option.some.inj (hi.symm.trans hanswers)) (hnot d)
  | @forgot _ d' b hj hb hfree =>
    change ((s.forget d').actors.set i .gone)[i]? = _ at hanswers
    rw [forget_actors] at hanswers
    obtain ⟨-, heq⟩ := hmoved hanswers
    cases heq
  | reading | made | replaced | drained | aborted | returned | began =>
    obtain ⟨-, heq⟩ := hmoved hanswers
    cases heq

end Followed

/-- A step of what is under way: no call begins, and a run that ends waits. -/
def Move.goesOn : Move → Bool
  | .goes _ => true
  | .ends _ .stalls => true
  | _ => false

/-- What is under way comes to a run of the Build, or to the drive's end. -/
def Leads (n : Nat) (build : String) (d : Nat) (s : Drives) : Prop :=
  ∃ next : List Move, (∀ m ∈ next, m.goesOn = true) ∧
    (build ∈ (next.foldl step s).runs.drop n ∨ ((next.foldl step s).drive d).ended = true)

section Leads

variable {s : Drives} {i j d n : Nat} {build : String} {a b : Actor}

theorem Leads.step {m : Move} (h : Leads n build d (step s m)) (hm : m.goesOn = true) : Leads n build d s := by
  obtain ⟨next, hnext, hleads⟩ := h
  exact ⟨m :: next, List.forall_mem_cons.mpr ⟨hm, hnext⟩, hleads⟩

theorem leads_of_ended (h : (s.drive d).ended = true) : Leads n build d s := ⟨[], nofun, .inr h⟩

theorem getElem?_goesTo (hj : s.actors[j]? = some a) (b : Actor) : (s.goesTo j b).actors[j]? = some b := by
  exact getElem?_set_new hj

theorem leads_of_starting (hn : n ≤ s.runs.length) (hj : s.actors[j]? = some (.starting d)) :
    Leads n (s.drive d).build d s := by
  have hstep : step s (.goes j) = { s with runs := s.runs ++ [(s.drive d).build] }.goesTo j (.running d) := by
    simp only [Driving.step, hj]
    rfl
  refine ⟨[.goes j], by simp [Move.goesOn], .inl ?_⟩
  change (s.drive d).build ∈ (Driving.step s (.goes j)).runs.drop n
  rw [hstep]
  change (s.drive d).build ∈ (s.runs ++ [(s.drive d).build]).drop n
  rw [List.drop_append_of_le_length hn]
  exact List.mem_append_right _ (List.mem_singleton_self _)

theorem leads_of_spawned (hn : n ≤ s.runs.length) (hj : s.actors[j]? = some (.spawned d)) :
    Leads n (s.drive d).build d s := by
  have hstep : step s (.goes j) = (s.effect d (.flags false)).goesTo j (.starting d) := by
    simp only [Driving.step, hj]
    rfl
  refine Leads.step (m := .goes j) ?_ rfl
  rw [hstep]
  have hbuild : (((s.effect d (.flags false)).goesTo j (.starting d)).drive d).build = (s.drive d).build := effect_build ..
  rw [← hbuild]
  exact leads_of_starting hn (getElem?_goesTo hj _)

theorem leads_of_settling {how : DriveEnd} (hn : n ≤ s.runs.length) (hj : s.actors[j]? = some (.settling d how true)) :
    Leads n (s.drive d).build d s := by
  have hstep : step s (.goes j) = (s.effect d .keeps).goesTo j (.spawned d) := by
    simp only [Driving.step, hj]
    rfl
  refine Leads.step (m := .goes j) ?_ rfl
  rw [hstep, effect_keeps]
  exact leads_of_spawned hn (getElem?_goesTo hj _)

theorem leads_of_returned (hn : n ≤ s.runs.length) (hstopped : s.stopped = false) (hfree : s.Free .tasks)
    (hj : s.actors[j]? = some (.returned d .stalled)) (hagain : (s.drive d).again = true) : Leads n (s.drive d).build d s := by
  have hstep : step s (.goes j) = (s.effect d (.flags false)).goesTo j (.settling d .stalled true) := by
    simp only [Driving.step, hj, Drives.goes, Drives.act]
    simp only [hfree, hstopped, hagain, and_self, if_true]
  refine Leads.step (m := .goes j) ?_ rfl
  rw [hstep]
  have hbuild : (((s.effect d (.flags false)).goesTo j (.settling d .stalled true)).drive d).build = (s.drive d).build :=
    effect_build ..
  rw [← hbuild]
  exact leads_of_settling hn (getElem?_goesTo hj _)

/-- One other than the task lets the tasks' mutex go at a drive, and the task and its drive's flag stay. -/
theorem leads_of_acts (hs : Sound s) (hn : n ≤ s.runs.length) (hstopped : s.stopped = false)
    (hj : s.actors[j]? = some (.returned d .stalled)) (hagain : (s.drive d).again = true) {l d' : Nat} {e : Effect} {b' : Actor}
    (hl : s.actors[l]? = some b) (hne : j ≠ l) (hlock : b.lock = some .tasks) (hunlocked : b'.lock = none)
    (hstep : step s (.goes l) = (s.effect d' e).goesTo l b') (hkeeps : d' = d → (e.on (s.drive d)).again = true) :
    Leads n (s.drive d).build d s := by
  refine Leads.step (m := .goes l) ?_ rfl
  rw [hstep]
  have hbuild : (((s.effect d' e).goesTo l b').drive d).build = (s.drive d).build := effect_build ..
  rw [← hbuild]
  refine leads_of_returned (j := j) hn hstopped ?_ ?_ ?_
  · refine hs.locks.free_of_set hl hlock ?_
    rw [hunlocked]
    nofun
  · change (s.actors.set l b')[j]? = _
    rw [List.getElem?_set_ne (Ne.symm hne)]
    exact hj
  · change ((s.effect d' e).drive d).again = true
    by_cases heq : d = d'
    · subst heq
      rw [effect_drive_self]
      exact hkeeps rfl
    · rw [effect_drive_ne heq]
      exact hagain

/-- The `ensure` that holds the tasks' mutex starts its task. -/
theorem leads_of_spawns (hs : Sound s) (hn : n ≤ s.runs.length) (hstopped : s.stopped = false)
    (hj : s.actors[j]? = some (.returned d .stalled)) (hagain : (s.drive d).again = true) {l d' : Nat}
    (hl : s.actors[l]? = some (.swapped d' false)) (hne : j ≠ l) : Leads n (s.drive d).build d s := by
  have hstep : step s (.goes l) = (s.goesTo l (.answered .ensure d')).spawn d' := by
    simp only [Driving.step, hl]
    rfl
  refine Leads.step (m := .goes l) ?_ rfl
  rw [hstep]
  refine leads_of_returned (s := (s.goesTo l (.answered .ensure d')).spawn d') (j := j) hn hstopped ?_ ?_ hagain
  · intro c hc
    rcases List.mem_append.mp hc with hc | hc
    · have hfree : LockFree Actor.lock (s.actors.set l (.answered .ensure d')) .tasks :=
        hs.locks.free_of_set hl rfl fun hlock => by cases hlock
      exact hfree c hc
    · rw [List.mem_singleton.mp hc]
      intro hlock
      cases hlock
  · change (s.actors.set l (.answered .ensure d') ++ [.spawned d'])[j]? = _
    have hlt : j < (s.actors.set l (.answered .ensure d')).length := by
      rw [List.length_set]
      exact (List.getElem?_eq_some_iff.mp hj).1
    rw [List.getElem?_append_left hlt, List.getElem?_set_ne (Ne.symm hne)]
    exact hj

/-- Whoever holds the tasks' mutex lets it go. -/
theorem leads_of_locked (hs : Sound s) (hn : n ≤ s.runs.length) (hstopped : s.stopped = false)
    (hj : s.actors[j]? = some (.returned d .stalled)) (hagain : (s.drive d).again = true) : Leads n (s.drive d).build d s := by
  by_cases hfree : s.Free .tasks
  · exact leads_of_returned hn hstopped hfree hj hagain
  · have hholder : ∃ b ∈ s.actors, b.lock = some .tasks := by
      by_contra hnone
      exact hfree fun b hb hlock => hnone ⟨b, hb, hlock⟩
    obtain ⟨b, hb, hlock⟩ := hholder
    obtain ⟨l, hl⟩ := List.mem_iff_getElem?.mp hb
    have hne : j ≠ l := by
      rintro rfl
      rw [hj] at hl
      cases hl
      cases hlock
    have hgoes : step s (.goes l) = s.goes l b := by simp only [Driving.step, hl]
    cases b
    case swapped d' was =>
      cases was with
      | true => exact leads_of_acts hs hn hstopped hj hagain hl hne hlock rfl hgoes fun _ => rfl
      | false => exact leads_of_spawns hs hn hstopped hj hagain hl hne
    case settling d' how again =>
      have hother : d' ≠ d := by
        rintro rfl
        exact hne (hs.flags j l _ _ d' hj hl rfl rfl)
      cases again with
      | true => exact leads_of_acts hs hn hstopped hj hagain hl hne hlock rfl hgoes fun heq => absurd heq hother
      | false => exact leads_of_acts hs hn hstopped hj hagain hl hne hlock rfl hgoes fun heq => absurd heq hother
    all_goals cases hlock

theorem leads_of_running (hs : Sound s) (hn : n ≤ s.runs.length) (hstopped : s.stopped = false)
    (hj : s.actors[j]? = some (.running d)) (hagain : (s.drive d).again = true) : Leads n (s.drive d).build d s := by
  have hstep : step s (.ends j .stalls) = s.goesTo j (.returned d .stalled) := by
    simp only [Driving.step, hj]
    change (s.effect d .keeps).goesTo j (.returned d .stalled) = _
    rw [effect_keeps]
  have hs' := sound_step hs (.ends j .stalls)
  rw [hstep] at hs'
  refine Leads.step (m := .ends j .stalls) ?_ rfl
  rw [hstep]
  exact leads_of_locked hs' hn hstopped (getElem?_goesTo hj _) hagain

theorem leads_of_finishes {t : Terminal} (hstep : step s (.goes j) = (s.effect d (.finishes t)).goesTo j b) :
    Leads n build d s := by
  refine Leads.step (m := .goes j) (leads_of_ended ?_) rfl
  rw [hstep]
  change ((s.effect d (.finishes t)).drive d).ended = true
  rw [effect_drive_self]
  exact ended_finishes t

theorem leads_of_unreadUnwrote (hj : s.actors[j]? = some (.unreadUnwrote d)) : Leads n build d s := by
  refine leads_of_finishes (t := .notReady) (j := j) (b := .unreadFinished d) ?_
  simp only [Driving.step, hj]
  rfl

/-- A drive that is bound comes to a run, or to its end. -/
theorem Bound.leads (hs : Sound s) (hn : n ≤ s.runs.length) (hstopped : s.stopped = false) (h : Bound s d) :
    Leads n (s.drive d).build d s := by
  rcases h with ⟨a, ha, hd⟩ | ⟨hagain, a, ha, hd⟩ | ⟨a, ha, hd⟩
  · obtain ⟨j, hj⟩ := List.mem_iff_getElem?.mp ha
    unfold Actor.due at hd
    split at hd
    next =>
      cases hd
      exact leads_of_spawned hn hj
    next =>
      cases hd
      exact leads_of_starting hn hj
    next =>
      cases hd
      exact leads_of_settling hn hj
    next => cases hd
  · obtain ⟨j, hj⟩ := List.mem_iff_getElem?.mp ha
    unfold Actor.repeats at hd
    split at hd
    next =>
      cases hd
      exact leads_of_running hs hn hstopped hj hagain
    next =>
      cases hd
      exact leads_of_locked hs hn hstopped hj hagain
    next => cases hd
  · obtain ⟨j, hj⟩ := List.mem_iff_getElem?.mp ha
    unfold Actor.ending at hd
    split at hd
    next =>
      cases hd
      have hstep : step s (.goes j) = (s.effect d (.unwrites none)).goesTo j (.unreadUnwrote d) := by
        simp only [Driving.step, hj]
        rfl
      refine Leads.step (m := .goes j) ?_ rfl
      rw [hstep]
      exact leads_of_unreadUnwrote (getElem?_goesTo hj _)
    next =>
      cases hd
      exact leads_of_unreadUnwrote hj
    next told =>
      cases hd
      refine leads_of_finishes (t := told) (j := j) (b := .finished d .unwritten) ?_
      simp only [Driving.step, hj]
      rfl
    next => cases hd

end Leads

section Runs

variable {s : Drives} {n d : Nat}

theorem stopped_step (h : s.stopped = true) (m : Move) : (step s m).stopped = true := by
  have hdoes := step_does s m
  generalize step s m = s' at hdoes ⊢
  cases hdoes with
  | @forgot i d' a hi ha hfree =>
    change (s.forget d').stopped = true
    rw [forget_eq]
    exact h
  | drained => rfl
  | nothing | called | wrote | acted | reading | made | replaced | spawned | aborted | returned | began | cancelled => exact h

theorem stopped_run (h : s.stopped = true) (moves : List Move) : (moves.foldl step s).stopped = true :=
  invariant_run (I := fun s : Drives => s.stopped = true) (fun _ m hs => stopped_step hs m) h moves

theorem sound_run (h : Sound s) (moves : List Move) : Sound (moves.foldl step s) :=
  invariant_run (I := Sound) (fun _ m hs => sound_step hs m) h moves

theorem alive_run (h : Alive s) (moves : List Move) : Alive (moves.foldl step s) :=
  invariant_run (I := Alive) (fun _ m hs => alive_step hs m) h moves

theorem owing_run (hs : Sound s) (h : Owing s) (moves : List Move) : Owing (moves.foldl step s) := by
  have hboth := invariant_run (I := fun s : Drives => Sound s ∧ Owing s)
    (fun _ m hs => ⟨sound_step hs.1 m, owing_step hs.1 hs.2 m⟩) ⟨hs, h⟩ moves
  exact hboth.2

theorem followed_run (hs : Sound s) (hal : Alive s) (h : Followed n d s) (moves : List Move)
    (hstopped : (moves.foldl step s).stopped = false) : Followed n d (moves.foldl step s) := by
  induction moves generalizing s with
  | nil => exact h
  | cons m moves ih =>
    have hstep : (step s m).stopped = false := by
      by_contra hstop
      have hstop := stopped_run (Bool.eq_true_of_not_eq_false hstop) moves
      rw [List.foldl_cons, hstop] at hstopped
      cases hstopped
    exact ih (sound_step hs m) (alive_step hal m) (followed_step hs hal h m hstep) hstopped

end Runs

/-- In every run: at most one run of a Build is in progress, where no `ensure` starts a drive that ended since it looked it up
and no drive is replaced or forgotten in a run; no run begins on a drive that ended, where the first holds; an `ensure` is
followed, while there is no stop, by a run of its Build or its drive's end, once nobody holds the drive's running flag, and
what is under way comes to that; and once a `stop` returned, where none follows another before its tasks are done, no run is in
progress and none begins. -/
theorem one_drive_runs (moves : List Move) :
    (RunOk step (fun s m => startsUnended s m = true ∧ replacesIdle s m = true) Drives.new moves →
      ∀ (i j : Nat) (a b : Actor) (d d' : Nat), (moves.foldl step Drives.new).actors[i]? = some a →
        (moves.foldl step Drives.new).actors[j]? = some b → a.inRun = some d → b.inRun = some d' →
        ((moves.foldl step Drives.new).drive d).build = ((moves.foldl step Drives.new).drive d').build → i = j) ∧
    (RunOk step (fun s m => startsUnended s m = true) Drives.new moves →
      ∀ (i d : Nat), (moves.foldl step Drives.new).actors[i]? = some (.starting d) →
        ((moves.foldl step Drives.new).drive d).ended = false) ∧
    (∀ before i after a d, moves = before ++ .goes i :: after → (before.foldl step Drives.new).actors[i]? = some a →
      (∀ d, a ≠ .answered .ensure d) →
      (step (before.foldl step Drives.new) (.goes i)).actors[i]? = some (.answered .ensure d) →
      (moves.foldl step Drives.new).stopped = false →
      ((∀ b ∈ (moves.foldl step Drives.new).actors, b.flag ≠ some d) →
        ((moves.foldl step Drives.new).drive d).build ∈
            (moves.foldl step Drives.new).runs.drop (step (before.foldl step Drives.new) (.goes i)).runs.length ∨
          ((moves.foldl step Drives.new).drive d).ended = true) ∧
      Leads (step (before.foldl step Drives.new) (.goes i)).runs.length ((moves.foldl step Drives.new).drive d).build d
        (moves.foldl step Drives.new)) ∧
    (RunOk step (fun s m => startsUnended s m = true ∧ replacesIdle s m = true ∧ stopsOnce s m = true) Drives.new moves →
      ∀ l, .stopped l ∈ (moves.foldl step Drives.new).actors →
        (∀ b ∈ (moves.foldl step Drives.new).actors, b.inRun = none) ∧
        ∀ m, (step (moves.foldl step Drives.new) m).runs = (moves.foldl step Drives.new).runs) := by
  refine ⟨fun hrun i j a b d d' hi hj ha hb hbuild => ?_, fun hrun i d hi => ?_, ?_, fun hrun l hl => ?_⟩
  · have hinv := hrun.invariant (I := fun s => (Sound s ∧ Owing s) ∧ Working s ∧ Placed s) (fun s m hs hm =>
      ⟨⟨sound_step hs.1.1 m, owing_step hs.1.1 hs.1.2 m⟩, working_step hs.1.1 hs.2.1 m hm.1,
        placed_step hs.1.1 hs.1.2 hs.2.1 hs.2.2 m hm.1 hm.2⟩) ⟨⟨sound_new, owing_new⟩, nofun, placed_new⟩
    exact hinv.2.2.one_engaged hinv.1.1 hi hj (engaged_of_inRun ha) (engaged_of_inRun hb) hbuild
  · have hinv := hrun.invariant (I := fun s => Sound s ∧ Working s) (fun s m hs hm =>
      ⟨sound_step hs.1 m, working_step hs.1 hs.2 m hm⟩) ⟨sound_new, nofun⟩
    exact hinv.2 _ (List.mem_of_getElem? hi) d rfl
  · intro before i after a d hmoves hi hnot hanswers hstopped
    subst hmoves
    rw [List.foldl_append, List.foldl_cons] at hstopped ⊢
    have hs := sound_run sound_new before
    have hal := alive_run alive_new before
    have hstart : (step (before.foldl step Drives.new) (.goes i)).stopped = false := by
      by_contra hstop
      rw [stopped_run (Bool.eq_true_of_not_eq_false hstop) after] at hstopped
      cases hstopped
    have hfirst := followed_of_answers hs (owing_run sound_new owing_new before) hal hi hnot hanswers hstart
    have hlast := followed_run (sound_step hs _) (alive_step hal _) hfirst after hstopped
    refine ⟨fun hnone => ?_, ?_⟩
    · rcases hlast.follows with hbegan | hended | hbound
      · exact .inl hbegan
      · exact .inr hended
      · obtain ⟨b, hb, hflag⟩ := hbound.flagged
        exact absurd hflag (hnone b hb)
    · rcases hlast.follows with hbegan | hended | hbound
      · exact ⟨[], nofun, .inl hbegan⟩
      · exact leads_of_ended hended
      · exact hbound.leads (sound_run (sound_step hs _) after) hlast.length hstopped
  · have hinv := hrun.invariant (I := fun s => (Sound s ∧ Owing s) ∧ Working s ∧ Placed s ∧ Handled s) (fun s m hs hm =>
      ⟨⟨sound_step hs.1.1 m, owing_step hs.1.1 hs.1.2 m⟩, working_step hs.1.1 hs.2.1 m hm.1,
        placed_step hs.1.1 hs.1.2 hs.2.1 hs.2.2.1 m hm.1 hm.2.1, handled_step hs.1.1 hs.2.2.1 hs.2.2.2 m hm.2.2⟩)
      ⟨⟨sound_new, owing_new⟩, nofun, placed_new, handled_new⟩
    exact hinv.2.2.2.none_runs hl

/-- An `ensure` whose task begins a run. -/
def startMoves : List Move := [.ensures "b", .goes 0, .goes 0, .goes 0, .goes 1, .goes 1]

/-- A second `ensure` looks the drive up, and the run ends, its task leaving the drives, before it takes the tasks' mutex. -/
def gapMoves : List Move :=
  startMoves ++ [.ensures "b", .goes 2, .goes 2, .goes 2, .goes 2, .ends 1 (.finishes .failed), .goes 1, .goes 1, .goes 1,
    .goes 1, .goes 1, .goes 2, .goes 2, .goes 3]

/-- A third finds no drive held, and its task's handle takes the place of the second's. -/
def doubledMoves : List Move := gapMoves ++ [.goes 3, .ensures "b", .goes 4, .goes 4, .goes 4, .goes 5, .goes 5]

def stoppedMoves : List Move := doubledMoves ++ [.stops, .goes 6, .goes 6, .cancels 5, .goes 6]

/-- A run begins on a drive that ended; two runs of a Build are in progress; and one is after the `stop` returned. -/
theorem two_runs_of_a_build :
    ((gapMoves.foldl step Drives.new).actors[3]?.bind Actor.drive = some 0 ∧
      ((gapMoves.foldl step Drives.new).drive 0).ended = true ∧
      (step (gapMoves.foldl step Drives.new) (.goes 3)).runs = (gapMoves.foldl step Drives.new).runs ++ ["b"]) ∧
    ((doubledMoves.foldl step Drives.new).actors[3]?.bind Actor.inRun = some 0 ∧
      (doubledMoves.foldl step Drives.new).actors[5]?.bind Actor.inRun = some 1 ∧
      ((doubledMoves.foldl step Drives.new).drive 0).build = ((doubledMoves.foldl step Drives.new).drive 1).build) ∧
    (stoppedMoves.foldl step Drives.new).actors[6]?.any Actor.hasReturned = true ∧
      (stoppedMoves.foldl step Drives.new).actors[3]?.bind Actor.inRun = some 0 := by
  decide +kernel

/-- A second `ensure` flags the run in progress, which waits, and its task is to run it again. -/
def againMoves : List Move :=
  startMoves ++ [.ensures "b", .goes 2, .goes 2, .goes 2, .goes 2, .goes 2, .goes 2, .ends 1 .stalls, .goes 1, .goes 1, .goes 1]

def endedMoves : List Move := againMoves ++ [.goes 1, .ends 1 (.finishes .failed), .goes 1, .goes 1, .goes 1, .goes 1, .goes 1]

def quietMoves : List Move := endedMoves ++ [.stops, .goes 3, .goes 3, .goes 3]

theorem quietMoves_run_alone :
    ((againMoves.foldl step Drives.new).drive 0).ended = false ∧
    ("b" ∈ (endedMoves.foldl step Drives.new).runs.drop 1 ∨ ((endedMoves.foldl step Drives.new).drive 0).ended = true) ∧
    (∀ (j : Nat) (b : Actor) (d : Nat), ((endedMoves.take 18).foldl step Drives.new).actors[j]? = some b → b.inRun = some d →
      (((endedMoves.take 18).foldl step Drives.new).drive d).build = "b" → 1 = j) ∧
    ∀ m, (step (quietMoves.foldl step Drives.new) m).runs = ["b", "b"] := by
  have hunended : RunOk step (fun s m => startsUnended s m = true) Drives.new againMoves := by decide +kernel
  have halone : RunOk step (fun s m => startsUnended s m = true ∧ replacesIdle s m = true) Drives.new (endedMoves.take 18) := by
    decide +kernel
  have honce : RunOk step (fun s m => startsUnended s m = true ∧ replacesIdle s m = true ∧ stopsOnce s m = true) Drives.new
      quietMoves := by decide +kernel
  have hstarting : (againMoves.foldl step Drives.new).actors[1]? = some (.starting 0) := rfl
  have hrunning : ((endedMoves.take 18).foldl step Drives.new).actors[1]? = some (.running 0) := rfl
  have hreturned : Actor.stopped [] ∈ (quietMoves.foldl step Drives.new).actors :=
    List.mem_of_getElem? (show (quietMoves.foldl step Drives.new).actors[3]? = _ from rfl)
  have hswapped : ((againMoves.take 12).foldl step Drives.new).actors[2]? = some (.swapped 0 true) := rfl
  have hanswers : (step ((againMoves.take 12).foldl step Drives.new) (.goes 2)).actors[2]? = some (.answered .ensure 0) := rfl
  have hfree : ∀ b ∈ (endedMoves.foldl step Drives.new).actors, b.flag ≠ some 0 := by decide +kernel
  refine ⟨(one_drive_runs againMoves).2.1 hunended 1 0 hstarting, ?_, ?_, ?_⟩
  · exact ((one_drive_runs endedMoves).2.2.1 (againMoves.take 12) 2 (endedMoves.drop 13) _ 0 rfl hswapped nofun hanswers rfl).1 hfree
  · intro j b d hj hb hbuild
    exact (one_drive_runs _).1 halone 1 j _ b 0 d hrunning hj rfl hb hbuild.symm
  · intro m
    exact ((one_drive_runs quietMoves).2.2.2 honce [] hreturned).2 m
end DistributedMesh.Driving
