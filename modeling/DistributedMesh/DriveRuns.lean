import DistributedMesh.DriveSound

namespace DistributedMesh.Driving

open GuardedRuns Drives

/-- The drive that a run is due of, or in progress and not at its end. -/
def Actor.working : Actor → Option Nat
  | .swapped d false => some d
  | .spawned d => some d
  | .starting d => some d
  | .running d => some d
  | .returned d .stalled => some d
  | .settling d .stalled _ => some d
  | _ => none

/-- The drive that a run is due of, or in progress. -/
def Actor.engaged : Actor → Option Nat
  | .finished d _ => some d
  | .unwrote d _ => some d
  | a => a.working

/-- The ended drive that a task has done with. -/
def Actor.leaves : Actor → Option Nat
  | .tail _ .stalled => none
  | .tail d _ => some d
  | .leaving d => some d
  | _ => none

/-- An `ensure` that takes the tasks' mutex starts no run of a drive that ended since it looked it up. -/
def startsUnended (s : Drives) : Move → Bool
  | .goes i =>
    match s.actors[i]? with
    | some (.found .ensure d) => !decide (s.Free .tasks) || s.stopped || (s.drive d).running || !(s.drive d).ended
    | _ => true
  | _ => true

/-- No drive leaves the drives held, for a new one or forgotten, while a run of it is in progress. -/
def replacesIdle (s : Drives) : Move → Bool
  | .goes i =>
    match s.actors[i]? with
    | some (.reads _ d .ended) => !(s.drive d).ended || !s.actors.any fun a => a.inRun == some d
    | some (.forgetting d) =>
      !decide (s.Free .drives) || s.drives (s.drive d).build != some d || !s.actors.any fun a => a.inRun == some d
    | _ => true
  | _ => true

/-- No `stop` follows another while a run the other found is due or in progress. -/
def stopsOnce (s : Drives) : Move → Bool
  | .goes i =>
    match s.actors[i]? with
    | some .stopping => !decide (s.Free .tasks) || !s.stopped || s.actors.all fun a => a.engaged == none
    | _ => true
  | _ => true

section Working

variable {s : Drives} {i d : Nat} {a a' b : Actor} {e : Effect} {m : Move}

theorem flag_of_working (h : a.working = some d) : a.flag = some d := by
  unfold Actor.working at h
  split at h
  all_goals cases h
  all_goals rfl

theorem engaged_cases (h : a.engaged = some d) : a.working = some d ∨ a.inRun = some d := by
  unfold Actor.engaged at h
  split at h
  next =>
    cases h
    exact .inr rfl
  next =>
    cases h
    exact .inr rfl
  next => exact .inl h

theorem flag_of_engaged (h : a.engaged = some d) : a.flag = some d := by
  unfold Actor.engaged at h
  split at h
  next => exact h
  next => exact h
  next => exact flag_of_working h

theorem engaged_of_inRun (h : a.inRun = some d) : a.engaged = some d := by
  unfold Actor.inRun at h
  split at h
  all_goals cases h
  all_goals rfl

/-- What ends a drive holds its flag. -/
theorem Acts.ended (h : Acts s a d e a') : (e.on (s.drive d)).ended = (s.drive d).ended ∨ a.flag = some d := by
  cases h
  case unreadFinishes | finishes | loses | told => exact .inr rfl
  all_goals exact .inl rfl

/-- A run is due of a drive that one was due of, or that an `ensure` found at rest. -/
theorem Acts.working (h : Acts s a d e a') (hfits : Fits (s.drive d) a) {d' : Nat} (hw : a'.working = some d') :
    d' = d ∧ (e.on (s.drive d)).ended = (s.drive d).ended ∧ (a.working = some d ∨
      a = .found .ensure d ∧ s.Free .tasks ∧ s.stopped = false ∧ (s.drive d).running = false) := by
  cases h
  case swapped hfree hstopped =>
    cases hr : (s.drive d).running with
    | true =>
      rw [hr] at hw
      cases hw
    | false =>
      rw [hr] at hw
      cases hw
      exact ⟨rfl, rfl, .inr ⟨rfl, hfree, hstopped, rfl⟩⟩
  case resets | stalls | settles =>
    cases hw
    exact ⟨rfl, rfl, .inl rfl⟩
  case returns how =>
    cases how with
    | stalled => exact absurd rfl hfits.2.2
    | terminal | roleLost | unwritten => cases hw
  case settlesNot how hfree hstopped =>
    cases how with
    | stalled =>
      cases hw
      exact ⟨rfl, rfl, .inl rfl⟩
    | terminal | roleLost | unwritten => cases hw
  case repeats how =>
    cases hw
    obtain rfl := hfits.2.2 rfl
    exact ⟨rfl, rfl, .inl rfl⟩
  all_goals cases hw

/-- A drive that a run is due of, or in progress before its end, has not ended. -/
def Working (s : Drives) : Prop := ∀ a ∈ s.actors, ∀ d, a.working = some d → (s.drive d).ended = false

theorem unended_of_found (hi : s.actors[i]? = some (.found .ensure d)) (hstarts : startsUnended s (.goes i) = true)
    (hfree : s.Free .tasks) (hstopped : s.stopped = false) (hidle : (s.drive d).running = false) :
    (s.drive d).ended = false := by
  simpa [startsUnended, hi, hfree, hstopped, hidle] using hstarts

theorem Working.goesTo (h : Working s) (hworking : ∀ d, a'.working = some d → (s.drive d).ended = false) :
    Working (s.goesTo i a') := forall_mem_set h hworking

theorem Working.begins (h : Working s) (hnone : a.working = none) : Working { s with actors := s.actors ++ [a] } := by
  intro b hb d hw
  rcases List.mem_append.mp hb with hb | hb
  · exact h b hb d hw
  · rw [List.mem_singleton.mp hb, hnone] at hw
    cases hw

theorem working_step (hs : Sound s) (h : Working s) (m : Move) (hstarts : startsUnended s m = true) : Working (step s m) := by
  have hdoes := step_does s m
  generalize step s m = s' at hdoes ⊢
  have hmake : ∀ build, Working (s.make build) := by
    intro build b hb d hw
    rw [make_drive_of_lt (hs.known b hb d (drive_of_flag (flag_of_working hw)))]
    exact h b hb d hw
  cases hdoes with
  | nothing => exact h
  | called m ha =>
    rcases ha with rfl | ⟨k, build, rfl⟩
    · exact h.begins rfl
    · exact h.begins rfl
  | wrote m hunwritten hheld => exact h.begins rfl
  | @acted m i d a a' e hi hacts hm =>
    have ha := List.mem_of_getElem? hi
    intro b hb d' hw
    obtain ⟨j, hj⟩ := List.mem_iff_getElem?.mp hb
    obtain ⟨-, rfl⟩ | ⟨hne, hj⟩ := getElem?_of_set hj
    · obtain ⟨rfl, hsame, hwas⟩ := hacts.working (hs.fits a ha d hacts.drive.1) hw
      change ((s.effect d' e).drive d').ended = false
      rw [effect_drive_self, hsame]
      rcases hwas with hwas | ⟨rfl, hfree, hstopped, hidle⟩
      · exact h a ha d' hwas
      · have hm := hm.resolve_right nofun
        subst hm
        exact unended_of_found hi hstarts hfree hstopped hidle
    · have hunended := h b (List.mem_of_getElem? hj) d' hw
      change ((s.effect d e).drive d').ended = false
      by_cases hd : d' = d
      · subst hd
        rw [effect_drive_self]
        rcases hacts.ended with hsame | hflag
        · rw [hsame]
          exact hunended
        · exact absurd (hs.flags j i b a d' hj hi (flag_of_working hw) hflag) hne
      · rw [effect_drive_ne hd]
        exact hunended
  | reading hi hfree hheld => exact h.goesTo nofun
  | made hi hfree hnone => exact (hmake _).goesTo nofun
  | replaced hi hended => exact (hmake _).goesTo nofun
  | @spawned i d hi =>
    have hanswered : Working (s.goesTo i (.answered .ensure d)) := h.goesTo nofun
    intro b hb d' hw
    rcases List.mem_append.mp hb with hb | hb
    · exact hanswered b hb d' hw
    · rw [List.mem_singleton.mp hb] at hw
      cases hw
      exact h _ (List.mem_of_getElem? hi) d rfl
  | @forgot i d a hi ha hfree =>
    have hforgot : Working (s.forget d) := by
      intro b hb
      rw [forget_actors] at hb
      rw [forget_drive]
      exact h b hb
    exact hforgot.goesTo nofun
  | drained hi hfree => exact h.goesTo nofun
  | aborted hi => exact h.goesTo nofun
  | returned hi hover => exact h.goesTo nofun
  | began hi => exact h.goesTo fun d' hd' => h _ (List.mem_of_getElem? hi) d' hd'
  | cancelled hi haborted ha => exact h.goesTo nofun

end Working

/-- The drive of a run due or in progress is the one held of its Build, and one that rests unended is held too. -/
structure Placed (s : Drives) : Prop where
  engaged : ∀ a ∈ s.actors, ∀ d, a.engaged = some d → s.drives (s.drive d).build = some d
  idle : ∀ d < s.made, (s.drive d).ended = true ∨ (s.drive d).running = true ∨ s.drives (s.drive d).build = some d
  leaving : ∀ a ∈ s.actors, ∀ d, a.leaves = some d → ∀ b ∈ s.actors, b.engaged ≠ some d

section Placed

variable {s s' : Drives} {i d : Nat} {a a' b : Actor} {e : Effect} {m : Move}

theorem drive_of_engaged (h : a.engaged = some d) : a.drive = some d := drive_of_flag (flag_of_engaged h)

/-- A run is due or in progress of a drive that one was of, or that an `ensure` found at rest. -/
theorem Acts.engaged (h : Acts s a d e a') (hfits : Fits (s.drive d) a) {d' : Nat} (he : a'.engaged = some d') :
    d' = d ∧ (a.engaged = some d ∨
      a = .found .ensure d ∧ s.Free .tasks ∧ s.stopped = false ∧ (s.drive d).running = false) := by
  by_cases hw : a'.working = some d'
  · obtain ⟨rfl, -, hwas | hfound⟩ := h.working hfits hw
    · refine ⟨rfl, .inl ?_⟩
      unfold Actor.engaged
      split
      next => cases hwas
      next => cases hwas
      next => exact hwas
    · exact ⟨rfl, .inr hfound⟩
  · have hrun := (engaged_cases he).resolve_left hw
    cases h
    case finishes | loses | unwrites | told =>
      cases hrun
      exact ⟨rfl, .inl rfl⟩
    case swapped =>
      cases hr : (s.drive d).running with
      | true =>
        rw [hr] at hrun
        cases hrun
      | false =>
        rw [hr] at hrun
        cases hrun
    all_goals cases hrun

/-- A task has done with an ended drive that it held the flag of. -/
theorem Acts.doneWith (h : Acts s a d e a') {d' : Nat} (hl : a'.leaves = some d') : a.leaves = some d' ∨ a.flag = some d' := by
  cases h
  case releases how =>
    cases how with
    | stalled => cases hl
    | terminal | roleLost | unwritten => exact .inr hl
  case leaves how hhow =>
    rcases hhow with rfl | rfl
    all_goals exact .inl hl
  all_goals cases hl

theorem Sound.ended_of_leaves (hs : Sound s) (ha : a ∈ s.actors) (hl : a.leaves = some d) : (s.drive d).ended = true := by
  cases a
  case tail d' how =>
    cases how with
    | stalled => cases hl
    | terminal | roleLost | unwritten =>
      cases hl
      exact hs.fits _ ha d rfl nofun
  case leaving d' =>
    cases hl
    exact hs.fits _ ha d rfl
  all_goals cases hl

/-- A drive that lets its flag go ended, or is held. -/
theorem Placed.releases (hs : Sound s) (h : Placed s) (hi : s.actors[i]? = some a) (hacts : Acts s a d .releases a') :
    (s.drive d).ended = true ∨ s.drives (s.drive d).build = some d := by
  have ha := List.mem_of_getElem? hi
  have hfits := hs.fits a ha d hacts.drive.1
  cases hacts
  case unreadReleases => exact .inl hfits.2
  case releases how =>
    cases how with
    | stalled => exact .inr (h.engaged _ ha d rfl)
    | terminal | roleLost | unwritten => exact .inl (hfits.2.1 nofun)

theorem placed_acts (hs : Sound s) (h : Placed s) (hi : s.actors[i]? = some a) (hacts : Acts s a d e a')
    (hfound : a = .found .ensure d → s.Free .tasks → s.stopped = false → (s.drive d).running = false →
      (s.drive d).ended = false) : Placed ((s.effect d e).goesTo i a') := by
  have ha := List.mem_of_getElem? hi
  have hfits := hs.fits a ha d hacts.drive.1
  refine ⟨fun b hb d' hb' => ?_, fun d' hd' => ?_, fun b hb d' hb' c hc hc' => ?_⟩
  · change s.drives ((s.effect d e).drive d').build = some d'
    rw [effect_build]
    rcases List.mem_or_eq_of_mem_set hb with hb | rfl
    · exact h.engaged b hb d' hb'
    · obtain ⟨rfl, hwas | ⟨heq, hfree, hstopped, hidle⟩⟩ := hacts.engaged hfits hb'
      · exact h.engaged a ha d' hwas
      · have hunended := hfound heq hfree hstopped hidle
        rcases h.idle d' (hs.known a ha d' hacts.drive.1) with hended | hrunning | hheld
        · rw [hunended] at hended
          cases hended
        · rw [hidle] at hrunning
          cases hrunning
        · exact hheld
  · change ((s.effect d e).drive d').ended = true ∨ ((s.effect d e).drive d').running = true ∨
      s.drives ((s.effect d e).drive d').build = some d'
    rw [effect_build]
    by_cases heq : d' = d
    · subst heq
      rw [effect_drive_self]
      by_cases hrel : e = .releases
      · subst hrel
        rcases h.releases hs hi hacts with hended | hheld
        · exact .inl (ended_on hended)
        · exact .inr (.inr hheld)
      · rcases h.idle d' hd' with hended | hrunning | hheld
        · exact .inl (ended_on hended)
        · exact .inr (.inl (running_on hrunning hrel))
        · exact .inr (.inr hheld)
    · rw [effect_drive_ne heq]
      exact h.idle d' hd'
  · -- one that leaves an ended drive, and one that a run is due of
    obtain ⟨j, hj⟩ := List.mem_iff_getElem?.mp hb
    obtain ⟨l, hl⟩ := List.mem_iff_getElem?.mp hc
    obtain ⟨hji, hbnew⟩ | ⟨hji, hj⟩ := getElem?_of_set hj
    · obtain ⟨hli, hcnew⟩ | ⟨hli, hl⟩ := getElem?_of_set hl
      · rw [hbnew, ← hcnew] at hb'
        have hflag := flag_of_engaged hc'
        unfold Actor.leaves at hb'
        split at hb'
        all_goals cases hb'
        all_goals cases hflag
      · rw [hbnew] at hb'
        have hcmem := List.mem_of_getElem? hl
        rcases hacts.doneWith hb' with hwas | hflag
        · exact h.leaving a ha d' hwas c hcmem hc'
        · exact hli (hs.flags l i c a d' hl hi (flag_of_engaged hc') hflag)
    · have hbmem := List.mem_of_getElem? hj
      obtain ⟨-, hcnew⟩ | ⟨-, hl⟩ := getElem?_of_set hl
      · rw [hcnew] at hc'
        obtain ⟨rfl, hwas | ⟨heq, hfree, hstopped, hidle⟩⟩ := hacts.engaged hfits hc'
        · exact h.leaving b hbmem d' hb' a ha hwas
        · have hended := hs.ended_of_leaves hbmem hb'
          rw [hfound heq hfree hstopped hidle] at hended
          cases hended
      · exact h.leaving b hbmem d' hb' c (List.mem_of_getElem? hl) hc'

/-- One moves on with no new run due, and none of a drive that one leaves. -/
theorem Placed.mono (h : Placed s) (hdrives : s'.drives = s.drives) (hdrive : s'.drive = s.drive) (hmade : s'.made = s.made)
    (hengaged : ∀ b ∈ s'.actors, ∀ d, b.engaged = some d → ∃ a ∈ s.actors, a.engaged = some d)
    (hleaves : ∀ b ∈ s'.actors, ∀ d, b.leaves = some d → ∃ a ∈ s.actors, a.leaves = some d) : Placed s' := by
  refine ⟨fun b hb d hbd => ?_, fun d hd => ?_, fun b hb d hbd c hc hcd => ?_⟩
  · obtain ⟨a, ha, had⟩ := hengaged b hb d hbd
    rw [hdrives, hdrive]
    exact h.engaged a ha d had
  · rw [hdrives, hdrive]
    exact h.idle d (hmade ▸ hd)
  · obtain ⟨a, ha, had⟩ := hleaves b hb d hbd
    obtain ⟨c₀, hc₀, hc₀d⟩ := hengaged c hc d hcd
    exact h.leaving a ha d had c₀ hc₀ hc₀d

theorem Placed.goesTo (h : Placed s) (hi : s.actors[i]? = some a) (hengaged : ∀ d, a'.engaged = some d → a.engaged = some d)
    (hleaves : a'.leaves = none) : Placed (s.goesTo i a') := by
  refine h.mono rfl rfl rfl (fun b hb d hbd => ?_) fun b hb d hbd => ?_
  · rcases List.mem_or_eq_of_mem_set hb with hb | rfl
    · exact ⟨b, hb, hbd⟩
    · exact ⟨a, List.mem_of_getElem? hi, hengaged d hbd⟩
  · rcases List.mem_or_eq_of_mem_set hb with hb | rfl
    · exact ⟨b, hb, hbd⟩
    · rw [hleaves] at hbd
      cases hbd

theorem Placed.begins (h : Placed s) (hengaged : a.engaged = none) (hleaves : a.leaves = none) :
    Placed { s with actors := s.actors ++ [a] } := by
  refine h.mono rfl rfl rfl (fun b hb d hbd => ?_) fun b hb d hbd => ?_
  · rcases List.mem_append.mp hb with hb | hb
    · exact ⟨b, hb, hbd⟩
    · rw [List.mem_singleton.mp hb, hengaged] at hbd
      cases hbd
  · rcases List.mem_append.mp hb with hb | hb
    · exact ⟨b, hb, hbd⟩
    · rw [List.mem_singleton.mp hb, hleaves] at hbd
      cases hbd

/-- A drive is made of a Build of which none is held, or one that ended and has no run. -/
theorem Placed.make (hs : Sound s) (h : Placed s) {build : String}
    (hheld : ∀ d, s.drives build = some d → (s.drive d).ended = true ∧ ∀ b ∈ s.actors, b.engaged ≠ some d) :
    Placed (s.make build) := by
  have hnew : (s.make build).drive s.made = Drive.new build := Function.update_self ..
  refine ⟨fun b hb d hbd => ?_, fun d hd => ?_, h.leaving⟩
  · have hlt := hs.known b hb d (drive_of_engaged hbd)
    rw [make_drive_of_lt hlt]
    change Function.update s.drives build (some s.made) (s.drive d).build = some d
    have hwas := h.engaged b hb d hbd
    by_cases hb' : (s.drive d).build = build
    · exact absurd hbd ((hheld d (hb' ▸ hwas)).2 b hb)
    · rw [Function.update_of_ne hb']
      exact hwas
  · by_cases heq : d = s.made
    · subst heq
      rw [hnew]
      exact .inr (.inr (Function.update_self ..))
    · have hlt : d < s.made := by
        change d < s.made + 1 at hd
        omega
      rw [make_drive_of_lt hlt]
      change _ ∨ _ ∨ Function.update s.drives build (some s.made) (s.drive d).build = some d
      rcases h.idle d hlt with hended | hrunning | hwas
      · exact .inl hended
      · exact .inr (.inl hrunning)
      · by_cases hb' : (s.drive d).build = build
        · exact .inl (hheld d (hb' ▸ hwas)).1
        · rw [Function.update_of_ne hb']
          exact .inr (.inr hwas)

/-- A drive is forgotten that has no run, and ended or has its flag set. -/
theorem Placed.forget (h : Placed s) (hnone : s.drives (s.drive d).build = some d → ∀ b ∈ s.actors, b.engaged ≠ some d)
    (hrests : (s.drive d).ended = true ∨ (s.drive d).running = true) : Placed (s.forget d) := by
  unfold Drives.forget
  split
  next hheld =>
    have hkept : ∀ d', d' ≠ d → s.drives (s.drive d').build = some d' →
        Function.update s.drives (s.drive d).build none (s.drive d').build = some d' := by
      intro d' hne hwas
      rw [Function.update_of_ne]
      · exact hwas
      · intro hb
        rw [hb, hheld] at hwas
        exact hne (Option.some.inj hwas).symm
    refine ⟨fun b hb d' hbd => hkept d' ?_ (h.engaged b hb d' hbd), fun d' hd' => ?_, h.leaving⟩
    · rintro rfl
      exact hnone hheld b hb hbd
    · by_cases heq : d' = d
      · subst heq
        exact hrests.imp_right .inl
      · exact (h.idle d' hd').imp_right (Or.imp_right (hkept d' heq))
  next => exact h

theorem unwriting_not_working (hu : a.unwriting = some d) : a.working = none ∧ a.flag = some d := by
  cases a
  case unreadUnwrote => exact ⟨rfl, hu⟩
  case unwrote => exact ⟨rfl, hu⟩
  all_goals cases hu

/-- A drive that an `ensure` replaces, or a `write_unwritten` forgets, has no run, when none of it is in progress. -/
theorem not_engaged_of_endsSoon (hs : Sound s) (hw : Working s) (hends : EndsSoon s d)
    (hnone : ∀ b ∈ s.actors, b.inRun ≠ some d) : ∀ b ∈ s.actors, b.engaged ≠ some d := by
  intro b hb hbd
  have hworking := (engaged_cases hbd).resolve_right (hnone b hb)
  rcases hends with hended | ⟨c, hc, hcd⟩
  · rw [hw b hb d hworking] at hended
    cases hended
  · obtain ⟨hnot, hflag⟩ := unwriting_not_working hcd
    obtain ⟨j, hj⟩ := List.mem_iff_getElem?.mp hb
    obtain ⟨l, hl⟩ := List.mem_iff_getElem?.mp hc
    obtain rfl := hs.flags j l b c d hj hl (flag_of_working hworking) hflag
    rw [hj] at hl
    cases hl
    rw [hworking] at hnot
    cases hnot

theorem EndsSoon.rests (hs : Sound s) (h : EndsSoon s d) : (s.drive d).ended = true ∨ (s.drive d).running = true :=
  h.imp_right fun ⟨_, hc, hcd⟩ => hs.running hc (unwriting_not_working hcd).2

theorem not_inRun {d : Nat} (h : (s.actors.any fun a => a.inRun == some d) = false) : ∀ b ∈ s.actors, b.inRun ≠ some d := by
  intro b hb hbd
  rw [List.any_eq_false] at h
  exact h b hb (by simp [hbd])

theorem placed_step (hs : Sound s) (ho : Owing s) (hw : Working s) (h : Placed s) (m : Move)
    (hstarts : startsUnended s m = true) (hreplaces : replacesIdle s m = true) : Placed (step s m) := by
  have hdoes := step_does s m
  generalize step s m = s' at hdoes ⊢
  cases hdoes with
  | nothing => exact h
  | called m ha =>
    rcases ha with rfl | ⟨k, build, rfl⟩
    · exact h.begins rfl rfl
    · exact h.begins rfl rfl
  | wrote m hunwritten hheld => exact h.begins rfl rfl
  | acted hi hacts hm =>
    refine placed_acts hs h hi hacts fun heq hfree hstopped hidle => ?_
    subst heq
    have hm := hm.resolve_right nofun
    subst hm
    exact unended_of_found hi hstarts hfree hstopped hidle
  | reading hi hfree hheld => exact h.goesTo hi nofun rfl
  | @made i k build hi hfree hnone =>
    have hmade : Placed (s.make build) := by
      refine h.make hs fun d hd => ?_
      rw [hnone] at hd
      cases hd
    exact hmade.goesTo hi nofun rfl
  | @replaced i d k hi hended =>
    have hheld := hs.reading k d .ended (List.mem_of_getElem? hi)
    have hrun : (s.actors.any fun a => a.inRun == some d) = false := by
      simpa [replacesIdle, hi, hended] using hreplaces
    have hmade : Placed (s.make (s.drive d).build) := by
      refine h.make hs fun d' hd' => ?_
      rw [hheld] at hd'
      cases hd'
      exact ⟨hended, not_engaged_of_endsSoon hs hw (.inl hended) (not_inRun hrun)⟩
    exact hmade.goesTo hi nofun rfl
  | @spawned i d hi =>
    refine h.mono rfl rfl rfl (fun b hb d' hbd => ?_) fun b hb d' hbd => ?_
    · rcases List.mem_append.mp hb with hb | hb
      · rcases List.mem_or_eq_of_mem_set hb with hb | rfl
        · exact ⟨b, hb, hbd⟩
        · cases hbd
      · rw [List.mem_singleton.mp hb] at hbd
        exact ⟨_, List.mem_of_getElem? hi, hbd⟩
    · rcases List.mem_append.mp hb with hb | hb
      · rcases List.mem_or_eq_of_mem_set hb with hb | rfl
        · exact ⟨b, hb, hbd⟩
        · cases hbd
      · rw [List.mem_singleton.mp hb] at hbd
        cases hbd
  | @forgot i d a hi ha hfree =>
    have hmem := List.mem_of_getElem? hi
    have hforgot : Placed (s.forget d) := by
      rcases ha with rfl | rfl
      · have hends := ho.writing _ hmem d rfl
        refine h.forget (fun hheld => not_engaged_of_endsSoon hs hw hends (not_inRun ?_)) (hends.rests hs)
        simpa [replacesIdle, hi, hfree, hheld] using hreplaces
      · exact h.forget (fun _ => h.leaving _ hmem d rfl) (.inl (hs.ended_of_leaves hmem rfl))
    exact hforgot.goesTo (getElem?_forget hi d) nofun rfl
  | @drained i hi hfree =>
    have hgoes : Placed (s.goesTo i (.aborting s.unfinished)) := h.goesTo hi nofun rfl
    exact ⟨hgoes.engaged, hgoes.idle, hgoes.leaving⟩
  | @aborted i drained hi =>
    have hgoes : Placed (s.goesTo i (.awaiting drained)) := h.goesTo hi nofun rfl
    exact ⟨hgoes.engaged, hgoes.idle, hgoes.leaving⟩
  | returned hi hover => exact h.goesTo hi nofun rfl
  | @began i d hi =>
    have hgoes : Placed (s.goesTo i (.running d)) := h.goesTo hi (fun d' hd' => hd') rfl
    exact ⟨hgoes.engaged, hgoes.idle, hgoes.leaving⟩
  | cancelled hi haborted ha => exact h.goesTo hi nofun rfl

theorem placed_new : Placed Drives.new := ⟨nofun, nofun, nofun⟩

/-- Two runs due or in progress of one Build are one. -/
theorem Placed.one_engaged (hs : Sound s) (h : Placed s) {j d' : Nat} (hi : s.actors[i]? = some a) (hj : s.actors[j]? = some b)
    (ha : a.engaged = some d) (hb : b.engaged = some d') (hbuild : (s.drive d).build = (s.drive d').build) : i = j := by
  have hheld := h.engaged a (List.mem_of_getElem? hi) d ha
  have hheld' := h.engaged b (List.mem_of_getElem? hj) d' hb
  rw [hbuild, hheld'] at hheld
  cases hheld
  exact hs.flags i j a b d hi hj (flag_of_engaged ha) (flag_of_engaged hb)

end Placed

/-- The tasks that a `stop` found. -/
def Actor.drained : Actor → Option (List Nat)
  | .aborting l => some l
  | .awaiting l => some l
  | .stopped l => some l
  | _ => none

/-- The drive of a task that a run is due of, or in progress. -/
def Actor.tasked : Actor → Option Nat
  | .swapped _ _ => none
  | a => a.engaged

/-- Every run due or in progress is of a task whose handle is held, or that the `stop` found. -/
structure Handled (s : Drives) : Prop where
  handles : s.stopped = false → ∀ (i : Nat) (a : Actor) (d : Nat), s.actors[i]? = some a → a.tasked = some d →
    s.handles (s.drive d).build = some i
  swapped : ∀ d was, .swapped d was ∈ s.actors → s.stopped = false
  drained : ∀ a ∈ s.actors, ∀ l, a.drained = some l → s.stopped = true ∧
    ∀ (i : Nat) (b : Actor) (d : Nat), s.actors[i]? = some b → b.tasked = some d → i ∈ l
  returned : ∀ l, .stopped l ∈ s.actors → ∀ b ∈ s.actors, b.tasked = none

section Handled

variable {s s' : Drives} {i d : Nat} {a a' b : Actor} {e : Effect} {m : Move}

theorem engaged_of_tasked (h : a.tasked = some d) : a.engaged = some d := by
  cases a
  case swapped => cases h
  all_goals exact h

theorem tasked_of_inRun (h : a.inRun = some d) : a.tasked = some d := by
  cases a
  case running | finished | unwrote => exact h
  all_goals cases h

theorem Acts.tasked (h : Acts s a d e a') (hfits : Fits (s.drive d) a) {d' : Nat} (ht : a'.tasked = some d') :
    a.tasked = some d' := by
  obtain ⟨rfl, hwas | ⟨rfl, -⟩⟩ := h.engaged hfits (engaged_of_tasked ht)
  · cases a
    case swapped d was =>
      cases h
      cases ht
    all_goals exact hwas
  · cases h
    all_goals cases ht

/-- The tasks with a run due are where they were, no `ensure` took the mutex of a stopped admin, and no `stop` came on. -/
theorem Handled.mono (h : Handled s) (hstopped : s'.stopped = s.stopped) (hhandles : s'.handles = s.handles)
    (hbuild : ∀ d, (∃ a ∈ s.actors, a.tasked = some d) → (s'.drive d).build = (s.drive d).build)
    (htasked : ∀ (i : Nat) (b : Actor) (d : Nat), s'.actors[i]? = some b → b.tasked = some d →
      ∃ a, s.actors[i]? = some a ∧ a.tasked = some d)
    (hswapped : ∀ d was, .swapped d was ∈ s'.actors → s.stopped = false ∨ .swapped d was ∈ s.actors)
    (hdrained : ∀ a ∈ s'.actors, ∀ l, a.drained = some l → a ∈ s.actors) : Handled s' := by
  refine ⟨fun hs i b d hi hb => ?_, fun d was hmem => ?_, fun a ha l hl => ?_, fun l hl b hb => ?_⟩
  · obtain ⟨a, hia, had⟩ := htasked i b d hi hb
    rw [hhandles, hbuild d ⟨a, List.mem_of_getElem? hia, had⟩]
    exact h.handles (hstopped ▸ hs) i a d hia had
  · rw [hstopped]
    rcases hswapped d was hmem with hs | hmem
    · exact hs
    · exact h.swapped d was hmem
  · obtain ⟨hs, hall⟩ := h.drained a (hdrained a ha l hl) l hl
    refine ⟨hstopped ▸ hs, fun i b d hi hb => ?_⟩
    obtain ⟨a', hia, had⟩ := htasked i b d hi hb
    exact hall i a' d hia had
  · cases hbt : b.tasked with
    | none => rfl
    | some d =>
      obtain ⟨i, hi⟩ := List.mem_iff_getElem?.mp hb
      obtain ⟨a', hia, had⟩ := htasked i b d hi hbt
      rw [h.returned l (hdrained _ hl l rfl) a' (List.mem_of_getElem? hia)] at had
      cases had

theorem Handled.goesTo (h : Handled s) (hi : s.actors[i]? = some a) (htasked : ∀ d, a'.tasked = some d → a.tasked = some d)
    (hswapped : ∀ d was, a' ≠ .swapped d was) (hdrained : a'.drained = none) : Handled (s.goesTo i a') := by
  refine h.mono rfl rfl (fun _ _ => rfl) (fun j b d hj hb => ?_) (fun d was hmem => ?_) fun b hb l hl => ?_
  · obtain ⟨rfl, rfl⟩ | ⟨-, hj⟩ := getElem?_of_set hj
    · exact ⟨a, hi, htasked d hb⟩
    · exact ⟨b, hj, hb⟩
  · rcases List.mem_or_eq_of_mem_set hmem with hmem | heq
    · exact .inr hmem
    · exact absurd heq.symm (hswapped d was)
  · rcases List.mem_or_eq_of_mem_set hb with hb | rfl
    · exact hb
    · rw [hdrained] at hl
      cases hl

theorem Handled.begins (h : Handled s) (htasked : a.tasked = none) (hswapped : ∀ d was, a ≠ .swapped d was)
    (hdrained : a.drained = none) : Handled { s with actors := s.actors ++ [a] } := by
  refine h.mono rfl rfl (fun _ _ => rfl) (fun j b d hj hb => ?_) (fun d was hmem => ?_) fun b hb l hl => ?_
  · change (s.actors ++ [a])[j]? = some b at hj
    rw [List.getElem?_append] at hj
    split at hj
    next => exact ⟨b, hj, hb⟩
    next =>
      rw [List.mem_singleton.mp (List.mem_of_getElem? hj), htasked] at hb
      cases hb
  · rcases List.mem_append.mp hmem with hmem | hmem
    · exact .inr hmem
    · exact absurd (List.mem_singleton.mp hmem).symm (hswapped d was)
  · rcases List.mem_append.mp hb with hb | hb
    · exact hb
    · rw [List.mem_singleton.mp hb, hdrained] at hl
      cases hl

theorem handled_acts (hs : Sound s) (h : Handled s) (hi : s.actors[i]? = some a) (hacts : Acts s a d e a') :
    Handled ((s.effect d e).goesTo i a') := by
  have ha := List.mem_of_getElem? hi
  have hfits := hs.fits a ha d hacts.drive.1
  refine h.mono rfl rfl (fun d' _ => effect_build s d e d') (fun j b d' hj hb => ?_) (fun d' was hmem => ?_) fun b hb l hl => ?_
  · obtain ⟨rfl, rfl⟩ | ⟨-, hj⟩ := getElem?_of_set hj
    · exact ⟨a, hi, hacts.tasked hfits hb⟩
    · exact ⟨b, hj, hb⟩
  · rcases List.mem_or_eq_of_mem_set hmem with hmem | heq
    · exact .inr hmem
    · subst heq
      cases hacts
      case swapped hfree hstopped => exact .inl hstopped
  · rcases List.mem_or_eq_of_mem_set hb with hb | rfl
    · exact hb
    · cases hacts
      all_goals cases hl

theorem Handled.make (hs : Sound s) (h : Handled s) (build : String) : Handled (s.make build) := by
  refine h.mono rfl rfl (fun d ⟨a, ha, had⟩ => ?_) (fun j b d hj hb => ⟨b, hj, hb⟩) (fun d was hmem => .inr hmem)
    fun b hb l hl => hb
  rw [make_drive_of_lt (hs.known a ha d (drive_of_engaged (engaged_of_tasked had)))]

theorem Handled.forget (h : Handled s) (d : Nat) : Handled (s.forget d) := by
  unfold Drives.forget
  split
  next => exact ⟨h.handles, h.swapped, h.drained, h.returned⟩
  next => exact h

/-- The handle of a task that starts takes the place of none with a run due. -/
theorem Handled.spawns (hs : Sound s) (hp : Placed s) (h : Handled s) (hi : s.actors[i]? = some (.swapped d false)) :
    Handled ((s.goesTo i (.answered .ensure d)).spawn d) := by
  have hmem := List.mem_of_getElem? hi
  have hstopped := h.swapped d false hmem
  have hother : ∀ (j : Nat) (b : Actor) (d' : Nat), s.actors[j]? = some b → b.tasked = some d' → (s.drive d').build ≠ (s.drive d).build := by
    intro j b d' hj hb hbuild
    have heq := hp.one_engaged hs hj hi (engaged_of_tasked hb) rfl hbuild
    subst heq
    rw [hi] at hj
    cases hj
    cases hb
  have htasked : ∀ (j : Nat) (b : Actor) (d' : Nat),
      (s.actors.set i (.answered .ensure d) ++ [.spawned d])[j]? = some b → b.tasked = some d' →
      s.actors[j]? = some b ∨ j = s.actors.length ∧ d' = d := by
    intro j b d' hj hb
    rw [List.getElem?_append] at hj
    split at hj
    next =>
      obtain ⟨-, rfl⟩ | ⟨-, hj⟩ := getElem?_of_set hj
      · cases hb
      · exact .inl hj
    next hge =>
      obtain ⟨hlt, rfl⟩ := List.getElem?_eq_some_iff.mp hj
      rw [List.length_set] at hge hlt
      rw [List.length_singleton] at hlt
      have hj' : j = s.actors.length := by omega
      subst hj'
      refine .inr ⟨rfl, ?_⟩
      simp only [List.length_set, Nat.sub_self, List.getElem_cons_zero] at hb
      exact (Option.some.inj hb).symm
  -- nothing was drained before the stop
  have hnone : ∀ b ∈ s.actors.set i (.answered .ensure d) ++ [.spawned d], b.drained = none := by
    intro b hb
    cases hl : b.drained with
    | none => rfl
    | some l =>
      rcases List.mem_append.mp hb with hb | hb
      · rcases List.mem_or_eq_of_mem_set hb with hb | rfl
        · have hwas := (h.drained b hb l hl).1
          rw [hstopped] at hwas
          cases hwas
        · cases hl
      · rw [List.mem_singleton.mp hb] at hl
        cases hl
  refine ⟨fun _ j b d' hj hb => ?_, fun _ _ _ => hstopped, fun b hb l hl => ?_, fun l hl => ?_⟩
  · change Function.update s.handles (s.drive d).build (some (s.actors.set i _).length) (s.drive d').build = some j
    rw [List.length_set]
    rcases htasked j b d' hj hb with hj | ⟨rfl, rfl⟩
    · rw [Function.update_of_ne (hother j b d' hj hb)]
      exact h.handles hstopped j b d' hj hb
    · rw [Function.update_self]
  · rw [hnone b hb] at hl
    cases hl
  · have hdrained := hnone _ hl
    cases hdrained

theorem task_of_tasked (h : a.tasked = some d) : a.task = some d := by
  have hflag := flag_of_engaged (engaged_of_tasked h)
  cases a
  case swapped => cases h
  case spawned | starting | running | finished | unwrote | returned | settling => exact hflag
  case marked | unreadUnwrote | unreadFinished => cases h
  all_goals cases hflag

theorem mem_unfinished (hi : s.actors[i]? = some a) (htask : a.task = some d) (hhandle : s.handles (s.drive d).build = some i) :
    i ∈ s.unfinished := by
  refine List.mem_filter.mpr ⟨List.mem_range.mpr (List.getElem?_eq_some_iff.mp hi).1, ?_⟩
  rw [hi]
  simp [htask, hhandle]

/-- A `stop` finds every task with a run due or in progress. -/
theorem Handled.drains (h : Handled s) (hi : s.actors[i]? = some .stopping) (hfree : s.Free .tasks)
    (honce : stopsOnce s (.goes i) = true) :
    Handled ({ s with stopped := true, handles := fun _ => none }.goesTo i (.aborting s.unfinished)) := by
  have hwas : ∀ (j : Nat) (b : Actor) (d : Nat), (s.actors.set i (.aborting s.unfinished))[j]? = some b → b.tasked = some d →
      s.actors[j]? = some b := by
    intro j b d hj hb
    obtain ⟨-, rfl⟩ | ⟨-, hj⟩ := getElem?_of_set hj
    · cases hb
    · exact hj
  refine ⟨nofun, fun d was hmem => ?_, fun b hb l hl => ⟨rfl, fun j c d hj hc => ?_⟩, fun l hl b hb => ?_⟩
  · rcases List.mem_or_eq_of_mem_set hmem with hmem | heq
    · exact absurd rfl (hfree _ hmem)
    · cases heq
  · have hj := hwas j c d hj hc
    rcases List.mem_or_eq_of_mem_set hb with hb | rfl
    · exact (h.drained b hb l hl).2 j c d hj hc
    · cases hl
      cases hstopped : s.stopped with
      | false => exact mem_unfinished hj (task_of_tasked hc) (h.handles hstopped j c d hj hc)
      | true =>
        have hnone : ∀ x ∈ s.actors, x.engaged = none := by simpa [stopsOnce, hi, hfree, hstopped] using honce
        have hengaged := engaged_of_tasked hc
        rw [hnone c (List.mem_of_getElem? hj)] at hengaged
        cases hengaged
  · rcases List.mem_or_eq_of_mem_set hl with hl | heq
    · rcases List.mem_or_eq_of_mem_set hb with hb | rfl
      · exact h.returned l hl b hb
      · rfl
    · cases heq

/-- A `stop` returns: the tasks it found are over. -/
theorem Handled.returns (h : Handled s) {l : List Nat} (hi : s.actors[i]? = some (.awaiting l))
    (hover : ∀ t ∈ l, s.actors[t]?.any Actor.isOver = true) : Handled (s.goesTo i (.stopped l)) := by
  obtain ⟨hstopped, hall⟩ := h.drained _ (List.mem_of_getElem? hi) l rfl
  have hnone : ∀ b ∈ s.actors, b.tasked = none := by
    intro b hb
    cases hbt : b.tasked with
    | none => rfl
    | some d =>
      obtain ⟨j, hj⟩ := List.mem_iff_getElem?.mp hb
      have hb' := hover j (hall j b d hj hbt)
      rw [hj] at hb'
      cases b
      case gone => cases hbt
      all_goals cases hb'
  have hnone' : ∀ b ∈ s.actors.set i (.stopped l), b.tasked = none := forall_mem_set hnone rfl
  have habsurd : ∀ (j : Nat) (b : Actor) (d : Nat), (s.actors.set i (.stopped l))[j]? = some b → b.tasked ≠ some d := by
    intro j b d hj hb
    rw [hnone' b (List.mem_of_getElem? hj)] at hb
    cases hb
  refine ⟨fun _ j b d hj hb => absurd hb (habsurd j b d hj), fun d was hmem => ?_, fun b hb l' hl => ⟨hstopped, ?_⟩,
    fun _ _ => hnone'⟩
  · rcases List.mem_or_eq_of_mem_set hmem with hmem | heq
    · exact h.swapped d was hmem
    · cases heq
  · exact fun j c d hj hc => absurd hc (habsurd j c d hj)

theorem handled_step (hs : Sound s) (hp : Placed s) (h : Handled s) (m : Move) (honce : stopsOnce s m = true) :
    Handled (step s m) := by
  have hdoes := step_does s m
  generalize step s m = s' at hdoes ⊢
  cases hdoes with
  | nothing => exact h
  | called m ha =>
    rcases ha with rfl | ⟨k, build, rfl⟩
    · exact h.begins rfl nofun rfl
    · exact h.begins rfl nofun rfl
  | wrote m hunwritten hheld => exact h.begins rfl nofun rfl
  | acted hi hacts hm => exact handled_acts hs h hi hacts
  | reading hi hfree hheld => exact h.goesTo hi nofun nofun rfl
  | made hi hfree hnone => exact (h.make hs _).goesTo hi nofun nofun rfl
  | replaced hi hended => exact (h.make hs _).goesTo hi nofun nofun rfl
  | spawned hi => exact h.spawns hs hp hi
  | @forgot i d a hi ha hfree =>
    exact (h.forget d).goesTo (getElem?_forget hi d) nofun nofun rfl
  | drained hi hfree => exact h.drains hi hfree honce
  | @aborted i drained hi =>
    have hmem := List.mem_of_getElem? hi
    refine ⟨fun hstopped j b d hj hb => ?_, fun d was hm => ?_, fun b hb l hl => ?_, fun l hl b hb => ?_⟩
    · obtain ⟨-, rfl⟩ | ⟨-, hj⟩ := getElem?_of_set hj
      · cases hb
      · exact h.handles hstopped j b d hj hb
    · rcases List.mem_or_eq_of_mem_set hm with hm | heq
      · exact h.swapped d was hm
      · cases heq
    · have hwas : s.stopped = true ∧
          ∀ (i : Nat) (b : Actor) (d : Nat), s.actors[i]? = some b → b.tasked = some d → i ∈ l := by
        rcases List.mem_or_eq_of_mem_set hb with hb | rfl
        · exact h.drained b hb l hl
        · exact h.drained _ hmem l hl
      refine ⟨hwas.1, fun j c d hj hc => ?_⟩
      obtain ⟨-, rfl⟩ | ⟨-, hj⟩ := getElem?_of_set hj
      · cases hc
      · exact hwas.2 j c d hj hc
    · rcases List.mem_or_eq_of_mem_set hl with hl | heq
      · rcases List.mem_or_eq_of_mem_set hb with hb | rfl
        · exact h.returned l hl b hb
        · rfl
      · cases heq
  | returned hi hover => exact h.returns hi hover
  | @began i d hi =>
    have hgoes : Handled (s.goesTo i (.running d)) := h.goesTo hi (fun d' hd' => hd') nofun rfl
    exact ⟨hgoes.handles, hgoes.swapped, hgoes.drained, hgoes.returned⟩
  | cancelled hi haborted ha => exact h.goesTo hi nofun nofun rfl

theorem handled_new : Handled Drives.new := ⟨nofun, nofun, nofun, nofun⟩

/-- Once a `stop` returned no run is in progress, and none begins. -/
theorem Handled.none_runs (h : Handled s) {l : List Nat} (hstopped : .stopped l ∈ s.actors) :
    (∀ b ∈ s.actors, b.inRun = none) ∧ ∀ m, (step s m).runs = s.runs := by
  have hnone := h.returned l hstopped
  refine ⟨fun b hb => ?_, fun m => ?_⟩
  · cases hr : b.inRun with
    | none => rfl
    | some d =>
      have ht := tasked_of_inRun hr
      rw [hnone b hb] at ht
      cases ht
  · have hdoes := step_does s m
    generalize step s m = s' at hdoes ⊢
    cases hdoes with
    | began hi =>
      have ht := hnone _ (List.mem_of_getElem? hi)
      cases ht
    | @forgot i d a hi ha hfree =>
      change (s.forget d).runs = s.runs
      unfold Drives.forget
      split
      next => rfl
      next => rfl
    | nothing | called | wrote | acted | reading | made | replaced | spawned | drained | aborted | returned | cancelled => rfl

end Handled

end DistributedMesh.Driving
