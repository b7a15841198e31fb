import DistributedMesh.DriveTasks

namespace DistributedMesh.Driving

open GuardedRuns Drives

section Effects

variable {e : Effect} {dr : Drive}

@[simp]
theorem Effect.on_build (e : Effect) (dr : Drive) : (e.on dr).build = dr.build := by
  cases e <;> rfl

/-- An ended drive stays so. -/
theorem ended_on (h : dr.ended = true) : (e.on dr).ended = true := by
  cases e
  case finishes t => simp [Effect.on, Drive.finish, Drive.ended]
  case loses =>
    unfold Drive.ended at h
    simp only [Effect.on, Drive.loseFabricPrimary, Drive.ended]
    rw [← Bool.or_assoc, h]
    rfl
  all_goals exact h

theorem ended_finishes (t : Terminal) : ((Effect.finishes t).on dr).ended = true := by
  simp [Effect.on, Drive.finish, Drive.ended]

theorem ended_loses : (Effect.loses.on dr).ended = true := by
  cases h : dr.terminal
  · simp [Effect.on, Drive.loseFabricPrimary, Drive.ended, h]
  · simp [Effect.on, Drive.loseFabricPrimary, Drive.ended, h]

theorem running_on (h : dr.running = true) (he : e ≠ .releases) : (e.on dr).running = true := by
  cases e
  case releases => exact absurd rfl he
  case takes => rfl
  all_goals exact h

end Effects

section Moves

variable {s : Drives} {i d : Nat} {a : Actor} {e : Effect}

/-- The drives that a step leaves as they were. -/
theorem effect_drive_ne {d' : Nat} (h : d' ≠ d) : (s.effect d e).drive d' = s.drive d' := Function.update_of_ne h ..

theorem effect_drive_self : (s.effect d e).drive d = e.on (s.drive d) := Function.update_self ..

theorem ended_effect {d' : Nat} (h : (s.drive d').ended = true) : ((s.effect d e).drive d').ended = true := by
  by_cases hd : d' = d
  · subst hd
    rw [effect_drive_self]
    exact ended_on h
  · rw [effect_drive_ne hd]
    exact h

theorem effect_build (s : Drives) (d : Nat) (e : Effect) (d' : Nat) :
    ((s.effect d e).drive d').build = (s.drive d').build := by
  by_cases hd : d' = d
  · rw [hd, effect_drive_self, Effect.on_build]
  · rw [effect_drive_ne hd]

theorem make_drive_of_lt {build : String} {d' : Nat} (h : d' < s.made) : (s.make build).drive d' = s.drive d' :=
  Function.update_of_ne (Nat.ne_of_lt h) ..

theorem make_drive_made (s : Drives) (build : String) : (s.make build).drive s.made = Drive.new build :=
  Function.update_self ..

/-- A drive forgotten leaves all but the drives held. -/
theorem forget_eq (s : Drives) (d : Nat) : s.forget d = { s with drives := (s.forget d).drives } := by
  unfold Drives.forget
  split
  next => rfl
  next => rfl

theorem forget_actors (s : Drives) (d : Nat) : (s.forget d).actors = s.actors := by
  rw [forget_eq]

theorem forget_drive (s : Drives) (d : Nat) : (s.forget d).drive = s.drive := by
  rw [forget_eq]

theorem forget_made (s : Drives) (d : Nat) : (s.forget d).made = s.made := by
  rw [forget_eq]

theorem getElem?_forget (hi : s.actors[i]? = some a) (d : Nat) : (s.forget d).actors[i]? = some a := by
  rw [forget_actors]
  exact hi

theorem forget_drives {build : String} {d' : Nat} (h : (s.forget d).drives build = some d') : s.drives build = some d' := by
  unfold Drives.forget at h
  split at h
  next =>
    change Function.update s.drives (s.drive d).build none build = some d' at h
    rw [Function.update_apply] at h
    split at h
    next => cases h
    next => exact h
  next => exact h

end Moves

/-- What is so of the drive that a call or a task is at. -/
def Fits (dr : Drive) : Actor → Prop
  | .swapped _ false => dr.running = true
  | .swapped _ true => dr.running = true ∨ dr.ended = true
  | .marked _ => dr.running = true
  | .unreadUnwrote _ => dr.running = true
  | .unreadFinished _ => dr.running = true ∧ dr.ended = true
  | .spawned _ => dr.running = true
  | .starting _ => dr.running = true
  | .running _ => dr.running = true
  | .unwrote _ _ => dr.running = true
  | .finished _ how => dr.running = true ∧ dr.ended = true ∧ how ≠ .stalled
  | .returned _ how => dr.running = true ∧ (how ≠ .stalled → dr.ended = true)
  | .settling _ how again => dr.running = true ∧ (how ≠ .stalled → dr.ended = true) ∧ (again = true → how = .stalled)
  | .tail _ how => how ≠ .stalled → dr.ended = true
  | .leaving _ => dr.ended = true
  | _ => True

section Fits

variable {s : Drives} {a a' b : Actor} {d : Nat} {e : Effect} {dr : Drive}

theorem Fits.running (h : Fits dr a) (hflag : a.flag = some d) : dr.running = true := by
  cases a
  case swapped d was =>
    cases was
    · exact h
    · cases hflag
  case finished => exact h.1
  case returned => exact h.1
  case settling => exact h.1
  case unreadFinished => exact h.1
  case marked | unreadUnwrote | spawned | starting | running | unwrote => exact h
  all_goals cases hflag

/-- What another does to the drive, short of letting its flag go, leaves it so. -/
theorem Fits.on (h : Fits dr a) (he : e ≠ .releases) : Fits (e.on dr) a := by
  have hended : dr.ended = true → (e.on dr).ended = true := ended_on
  have hrunning : dr.running = true → (e.on dr).running = true := fun hr => running_on hr he
  cases a
  case swapped d was =>
    cases was
    · exact hrunning h
    · exact Or.imp hrunning hended h
  case finished => exact ⟨hrunning h.1, hended h.2.1, h.2.2⟩
  case returned => exact ⟨hrunning h.1, fun hne => hended (h.2 hne)⟩
  case settling => exact ⟨hrunning h.1, fun hne => hended (h.2.1 hne), h.2.2⟩
  case unreadFinished => exact ⟨hrunning h.1, hended h.2⟩
  case tail => exact fun hne => hended (h hne)
  case leaving => exact hended h
  case marked | unreadUnwrote | spawned | starting | running | unwrote => exact hrunning h
  all_goals trivial

/-- The flag is let go by one that held it: no other has it, and one that saw it set holds a mutex, or the drive ended. -/
theorem Fits.releases (h : Fits dr a) (hflag : a.flag = none) (hswapped : a.lock = some .tasks → dr.ended = true) :
    Fits (Effect.releases.on dr) a := by
  cases a
  case swapped d was =>
    cases was
    · cases hflag
    · exact .inr (hswapped rfl)
  case tail => exact h
  case leaving => exact h
  case finished | returned | settling | unreadFinished | marked | unreadUnwrote | spawned | starting | running | unwrote =>
    cases hflag
  all_goals trivial

theorem Acts.drive (h : Acts s a d e a') : a.drive = some d ∧ ∀ d', a'.drive = some d' → d' = d := by
  cases h
  case spent | keptCompleted | stays => exact ⟨rfl, nofun⟩
  all_goals exact ⟨rfl, fun _ hd' => (Option.some.inj hd').symm⟩

theorem Acts.fits (h : Acts s a d e a') (hfits : Fits (s.drive d) a) : Fits (e.on (s.drive d)) a' := by
  cases h
  case swapped hfree hstopped =>
    cases hr : (s.drive d).running
    · exact rfl
    · exact .inl rfl
  case marked => exact rfl
  case unreads => exact hfits
  case unreadFinishes => exact ⟨hfits, ended_finishes _⟩
  case resets => exact hfits
  case stalls => exact ⟨hfits, fun hne => absurd rfl hne⟩
  case finishes t => exact ⟨hfits, ended_finishes t, nofun⟩
  case loses => exact ⟨hfits, ended_loses, nofun⟩
  case unwrites => exact hfits
  case told => exact ⟨hfits, ended_finishes _, nofun⟩
  case returns => exact ⟨hfits.1, fun _ => hfits.2.1⟩
  case settles => exact ⟨hfits.1, hfits.2, fun _ => rfl⟩
  case settlesNot => exact ⟨hfits.1, hfits.2, nofun⟩
  case repeats => exact hfits.1
  case releases => exact hfits.2.1
  case leaves how hhow =>
    refine hfits ?_
    rcases hhow with rfl | rfl
    all_goals nofun
  all_goals trivial

/-- The flag of the drive is kept, let go, or taken by one that found it free. -/
theorem Acts.flag (h : Acts s a d e a') :
    a'.flag = a.flag ∧ e ≠ .releases ∨ a'.flag = none ∧ a.flag = some d ∧ e = .releases ∨
      a.flag = none ∧ a'.flag = some d ∧ (s.drive d).running = false ∧ e = .takes := by
  cases h
  case swapped hfree hstopped =>
    cases hr : (s.drive d).running
    · exact .inr (.inr ⟨rfl, rfl, rfl, rfl⟩)
    · exact .inl ⟨rfl, nofun⟩
  case marked hr => exact .inr (.inr ⟨rfl, rfl, hr, rfl⟩)
  case unreadReleases => exact .inr (.inl ⟨rfl, rfl, rfl⟩)
  case releases => exact .inr (.inl ⟨rfl, rfl, rfl⟩)
  all_goals exact .inl ⟨rfl, nofun⟩

theorem Acts.lock (h : Acts s a d e a') (l : Lock) (hl : a'.lock = some l) : a.lock = some l ∨ s.Free l := by
  cases h
  case swapped hfree hstopped =>
    cases hl
    exact .inr hfree
  case settles hfree hstopped =>
    cases hl
    exact .inr hfree
  case settlesNot hfree hstopped =>
    cases hl
    exact .inr hfree
  case incomplete | written => exact .inl hl
  all_goals cases hl

/-- One that lets the flag go of a drive that has not ended holds the tasks' mutex. -/
theorem Acts.releases_lock (h : Acts s a d .releases a') (hfits : Fits (s.drive d) a) :
    a.lock = some .tasks ∨ (s.drive d).ended = true := by
  cases h
  case unreadReleases => exact .inr hfits.2
  case releases => exact .inl rfl

end Fits

/-- The drives as every call and task finds them: each flag and each mutex has one holder, and what is held of a Build is a
drive of it. -/
structure Sound (s : Drives) : Prop where
  known : ∀ a ∈ s.actors, ∀ d, a.drive = some d → d < s.made
  held : ∀ build d, s.drives build = some d → d < s.made ∧ (s.drive d).build = build
  flags : Exclusive Actor.flag s.actors
  locks : Exclusive Actor.lock s.actors
  fits : ∀ a ∈ s.actors, ∀ d, a.drive = some d → Fits (s.drive d) a
  reading : ∀ k d r, .reads k d r ∈ s.actors → s.drives (s.drive d).build = some d

section Sound

variable {s : Drives} {i d : Nat} {a a' : Actor} {e : Effect}

theorem drive_of_flag (h : a.flag = some d) : a.drive = some d := by
  cases a
  case swapped d' was =>
    cases was
    · exact h
    · cases h
  case marked | unreadUnwrote | unreadFinished | spawned | starting | running | finished | unwrote | returned | settling => exact h
  all_goals cases h

theorem Sound.running (h : Sound s) (ha : a ∈ s.actors) (hflag : a.flag = some d) : (s.drive d).running = true :=
  (h.fits a ha d (drive_of_flag hflag)).running hflag

theorem Sound.free_of_idle (h : Sound s) (hidle : (s.drive d).running = false) : LockFree Actor.flag s.actors d := by
  intro b hb hflag
  rw [h.running hb hflag] at hidle
  cases hidle

/-- A step at a drive: the flag has one holder still. -/
theorem Sound.flags_acts (h : Sound s) (hi : s.actors[i]? = some a) (hacts : Acts s a d e a') :
    Exclusive Actor.flag (s.actors.set i a') := by
  refine h.flags.set hi fun k hk => ?_
  rcases hacts.flag with ⟨hsame, -⟩ | ⟨hnone, -⟩ | ⟨-, htakes, hidle, -⟩
  · exact .inl (hsame ▸ hk)
  · rw [hnone] at hk
    cases hk
  · rw [htakes] at hk
    cases hk
    exact .inr (h.free_of_idle hidle)

/-- What a step at a drive leaves of another at it. -/
theorem Sound.fits_other (h : Sound s) (hi : s.actors[i]? = some a) (hacts : Acts s a d e a') {j : Nat} {b : Actor}
    (hj : s.actors[j]? = some b) (hne : j ≠ i) (hb : b.drive = some d) : Fits (e.on (s.drive d)) b := by
  have hfits := h.fits b (List.mem_of_getElem? hj) d hb
  by_cases he : e = .releases
  · subst he
    rcases hacts.flag with ⟨-, hne'⟩ | ⟨-, hflag, -⟩ | ⟨-, -, -, htakes⟩
    · exact absurd rfl hne'
    · refine hfits.releases ?_ fun hlock => ?_
      · by_contra hsome
        obtain ⟨k, hk⟩ := Option.ne_none_iff_exists'.mp hsome
        have hkd := drive_of_flag hk
        rw [hb] at hkd
        cases hkd
        exact hne (h.flags j i b a d hj hi hk hflag)
      · have hafits := h.fits a (List.mem_of_getElem? hi) d hacts.drive.1
        rcases hacts.releases_lock hafits with hmine | hended
        · exact absurd (h.locks j i b a .tasks hj hi hlock hmine) hne
        · exact hended
    · cases htakes
  · exact hfits.on he

theorem sound_acts (h : Sound s) (hi : s.actors[i]? = some a) (hacts : Acts s a d e a') :
    Sound ((s.effect d e).goesTo i a') := by
  have ha := List.mem_of_getElem? hi
  have hd := h.known a ha d hacts.drive.1
  refine ⟨?_, fun build d' hheld => ?_, h.flags_acts hi hacts, ?_, fun b hb d' hbd => ?_, fun k d' r hr => ?_⟩
  · refine forall_mem_set h.known fun d' hd' => ?_
    rw [hacts.drive.2 d' hd']
    exact hd
  · obtain ⟨hlt, hb⟩ := h.held build d' hheld
    exact ⟨hlt, (effect_build s d e d').trans hb⟩
  · exact h.locks.set hi hacts.lock
  · change Fits ((s.effect d e).drive d') b
    obtain ⟨j, hj⟩ := List.mem_iff_getElem?.mp hb
    obtain ⟨rfl, rfl⟩ | ⟨hne, hj⟩ := getElem?_of_set hj
    · obtain rfl := hacts.drive.2 d' hbd
      rw [effect_drive_self]
      exact hacts.fits (h.fits a ha d' hacts.drive.1)
    · by_cases hdd : d' = d
      · subst hdd
        rw [effect_drive_self]
        exact h.fits_other hi hacts hj hne hbd
      · rw [effect_drive_ne hdd]
        exact h.fits b (List.mem_of_getElem? hj) d' hbd
  · change s.drives ((s.effect d e).drive d').build = some d'
    rw [effect_build]
    rcases List.mem_or_eq_of_mem_set hr with hr | rfl
    · exact h.reading k d' r hr
    · obtain rfl := hacts.drive.2 d' rfl
      have hwas : ∃ r', a = .reads k d' r' := by
        cases hacts
        case incomplete => exact ⟨_, rfl⟩
        case written => exact ⟨_, rfl⟩
      obtain ⟨r', rfl⟩ := hwas
      exact h.reading k d' r' ha

/-- One moves on at no drive, or at the drive it was at. -/
theorem Sound.goesTo (h : Sound s) (hi : s.actors[i]? = some a) (hdrive : ∀ d, a'.drive = some d → d < s.made ∧ Fits (s.drive d) a')
    (hflag : ∀ k, a'.flag = some k → a.flag = some k) (hlock : a'.lock = none) : Sound (s.goesTo i a') := by
  refine ⟨forall_mem_set h.known fun d hd => (hdrive d hd).1, h.held, h.flags.set hi fun k hk => .inl (hflag k hk), ?_,
    forall_mem_set h.fits fun d hd => (hdrive d hd).2, fun k d r hr => ?_⟩
  · refine h.locks.set hi fun l hl => ?_
    rw [hlock] at hl
    cases hl
  · rcases List.mem_or_eq_of_mem_set hr with hr | rfl
    · exact h.reading k d r hr
    · cases hlock

theorem Sound.begins (h : Sound s) (hdrive : ∀ d, a.drive = some d → d < s.made ∧ Fits (s.drive d) a)
    (hflag : ∀ k, a.flag = some k → LockFree Actor.flag s.actors k) (hlock : a.lock = none) :
    Sound { s with actors := s.actors ++ [a] } := by
  refine ⟨fun b hb d hd => ?_, h.held, h.flags.append_of_free hflag, h.locks.append hlock, fun b hb d hd => ?_,
    fun k d r hr => ?_⟩
  · rcases List.mem_append.mp hb with hb | hb
    · exact h.known b hb d hd
    · rw [List.mem_singleton.mp hb] at hd
      exact (hdrive d hd).1
  · rcases List.mem_append.mp hb with hb | hb
    · exact h.fits b hb d hd
    · rw [List.mem_singleton.mp hb] at hd ⊢
      exact (hdrive d hd).2
  · rcases List.mem_append.mp hr with hr | hr
    · exact h.reading k d r hr
    · rw [← List.mem_singleton.mp hr] at hlock
      cases hlock

/-- A drive is made of a Build whose drive nobody reads. -/
theorem Sound.make (h : Sound s) (build : String) (hreads : ∀ k d r, .reads k d r ∉ s.actors) : Sound (s.make build) := by
  refine ⟨fun a ha d hd => Nat.lt_succ_of_lt (h.known a ha d hd), fun b d hheld => ?_, h.flags, h.locks, fun a ha d hd => ?_,
    fun k d r hr => absurd hr (hreads k d r)⟩
  · change Function.update s.drives build (some s.made) b = some d at hheld
    rw [Function.update_apply] at hheld
    split at hheld
    next heq =>
      cases hheld
      rw [make_drive_made]
      exact ⟨Nat.lt_succ_self _, heq.symm⟩
    next =>
      obtain ⟨hlt, hb⟩ := h.held b d hheld
      rw [make_drive_of_lt hlt]
      exact ⟨Nat.lt_succ_of_lt hlt, hb⟩
  · rw [make_drive_of_lt (h.known a ha d hd)]
    exact h.fits a ha d hd

theorem Sound.forget (h : Sound s) (d : Nat) (hreads : ∀ k d r, .reads k d r ∉ s.actors) : Sound (s.forget d) := by
  refine ⟨?_, fun build d' hheld => ?_, ?_, ?_, ?_, fun k d' r hr => ?_⟩
  · rw [forget_actors, forget_made]
    exact h.known
  · rw [forget_made, forget_drive]
    exact h.held build d' (forget_drives hheld)
  · rw [forget_actors]
    exact h.flags
  · rw [forget_actors]
    exact h.locks
  · rw [forget_actors, forget_drive]
    exact h.fits
  · rw [forget_actors] at hr
    exact absurd hr (hreads k d' r)

theorem reads_none_of_free (h : s.Free .drives) (k : Asker) (d : Nat) (r : Reading) : .reads k d r ∉ s.actors :=
  fun hr => h _ hr rfl

/-- One that reads the drives alone holds their mutex. -/
theorem Sound.reads_none_of_reads (h : Sound s) {k : Asker} {r : Reading} (hi : s.actors[i]? = some (.reads k d r))
    (hlock : a'.lock = none) (k' : Asker) (d' : Nat) (r' : Reading) : .reads k' d' r' ∉ s.actors.set i a' := by
  have hnot : a'.lock ≠ some .drives := by
    rw [hlock]
    nofun
  have hfree : LockFree Actor.lock (s.actors.set i a') .drives := h.locks.free_of_set hi rfl hnot
  exact fun hr => hfree _ hr rfl

/-- A lookup finds a drive held, and keeps the drives' mutex to read it. -/
theorem Sound.reads (h : Sound s) {k : Asker} {build : String} (hi : s.actors[i]? = some (.asking k build))
    (hfree : s.Free .drives) (hheld : s.drives build = some d) : Sound (s.goesTo i (.reads k d .completed)) := by
  obtain ⟨hlt, hb⟩ := h.held build d hheld
  refine ⟨?_, h.held, h.flags.set hi fun k hk => (nomatch hk), h.locks.set hi fun l hl => ?_, ?_, fun k' d' r hr => ?_⟩
  · refine forall_mem_set h.known fun d' hd' => ?_
    cases hd'
    exact hlt
  · cases hl
    exact .inr hfree
  · exact forall_mem_set h.fits fun d' _ => trivial
  · rcases List.mem_or_eq_of_mem_set hr with hr | heq
    · exact h.reading k' d' r hr
    · cases heq
      change s.drives (s.drive d).build = some d
      rw [hb]
      exact hheld

/-- A lookup replaces a drive that ended by a new one. -/
theorem Sound.replaces (h : Sound s) {k : Asker} {r : Reading} (hi : s.actors[i]? = some (.reads k d r)) :
    Sound ((s.make (s.drive d).build).goesTo i (.found k s.made)) := by
  -- the mutex is let go first, with the drive it read: nobody reads the drives then
  have hfound : Sound (s.goesTo i (.found k d)) := by
    refine h.goesTo hi (fun d' hd' => ?_) nofun rfl
    cases hd'
    exact ⟨h.known _ (List.mem_of_getElem? hi) d rfl, trivial⟩
  have hmade : Sound ((s.goesTo i (.found k d)).make (s.drive d).build) :=
    hfound.make _ (h.reads_none_of_reads hi rfl)
  have hset : ((s.goesTo i (.found k d)).make (s.drive d).build).actors[i]? = some (.found k d) := getElem?_set_new hi
  have hgoes : Sound (((s.goesTo i (.found k d)).make (s.drive d).build).goesTo i (.found k s.made)) := by
    refine hmade.goesTo hset (fun d' hd' => ?_) nofun rfl
    cases hd'
    exact ⟨Nat.lt_succ_self _, trivial⟩
  unfold Drives.goesTo Drives.make at hgoes ⊢
  rwa [List.set_set] at hgoes

/-- An `ensure` hands the flag to the task it starts. -/
theorem Sound.spawns (h : Sound s) (hi : s.actors[i]? = some (.swapped d false)) :
    Sound ((s.goesTo i (.answered .ensure d)).spawn d) := by
  have hfits := h.fits _ (List.mem_of_getElem? hi) d rfl
  have hlt := h.known _ (List.mem_of_getElem? hi) d rfl
  have hanswered : Sound (s.goesTo i (.answered .ensure d)) := by
    refine h.goesTo hi (fun d' hd' => ?_) nofun rfl
    cases hd'
    exact ⟨hlt, trivial⟩
  have hfree : LockFree Actor.flag (s.actors.set i (.answered .ensure d)) d := h.flags.free_of_set hi rfl nofun
  have hdrive : ∀ d', (Actor.spawned d).drive = some d' → d' < s.made ∧ Fits (s.drive d') (.spawned d) := by
    intro d' hd'
    cases hd'
    exact ⟨hlt, hfits⟩
  have hbegins := hanswered.begins hdrive (fun k hk => Option.some.inj hk ▸ hfree) rfl
  exact ⟨hbegins.known, hbegins.held, hbegins.flags, hbegins.locks, hbegins.fits, hbegins.reading⟩

theorem sound_step (h : Sound s) (m : Move) : Sound (step s m) := by
  have hdoes := step_does s m
  generalize step s m = s' at hdoes ⊢
  cases hdoes with
  | nothing => exact h
  | called m ha =>
    rcases ha with rfl | ⟨k, build, rfl⟩
    · exact h.begins nofun nofun rfl
    · exact h.begins nofun nofun rfl
  | wrote m hunwritten hheld =>
    obtain ⟨build, hheld⟩ := hheld
    refine h.begins (fun d' hd' => ?_) nofun rfl
    cases hd'
    exact ⟨(h.held build _ hheld).1, trivial⟩
  | acted hi hacts hm => exact sound_acts h hi hacts
  | reading hi hfree hheld => exact h.reads hi hfree hheld
  | @made i k build hi hfree hnone =>
    refine (h.make build (reads_none_of_free hfree)).goesTo hi (fun d' hd' => ?_) nofun rfl
    cases hd'
    exact ⟨Nat.lt_succ_self _, trivial⟩
  | replaced hi hended => exact h.replaces hi
  | spawned hi => exact h.spawns hi
  | @forgot i d a hi ha hfree =>
    have hforgot := h.forget d (reads_none_of_free hfree)
    exact hforgot.goesTo (getElem?_forget hi d) nofun nofun rfl
  | drained hi hfree =>
    have hgoes : Sound (s.goesTo _ (.aborting s.unfinished)) := h.goesTo hi nofun nofun rfl
    exact ⟨hgoes.known, hgoes.held, hgoes.flags, hgoes.locks, hgoes.fits, hgoes.reading⟩
  | @aborted i drained hi =>
    have hgoes : Sound (s.goesTo i (.awaiting drained)) := h.goesTo hi nofun nofun rfl
    exact ⟨hgoes.known, hgoes.held, hgoes.flags, hgoes.locks, hgoes.fits, hgoes.reading⟩
  | returned hi hover => exact h.goesTo hi nofun nofun rfl
  | @began i d hi =>
    have hgoes : Sound (s.goesTo i (.running d)) := by
      refine h.goesTo hi (fun d' hd' => ?_) (fun k hk => hk) rfl
      cases hd'
      exact ⟨h.known _ (List.mem_of_getElem? hi) d rfl, h.fits _ (List.mem_of_getElem? hi) d rfl⟩
    exact ⟨hgoes.known, hgoes.held, hgoes.flags, hgoes.locks, hgoes.fits, hgoes.reading⟩
  | cancelled hi haborted ha => exact h.goesTo hi nofun nofun rfl

theorem sound_new : Sound Drives.new := ⟨nofun, nofun, exclusive_nil, exclusive_nil, nofun, nofun⟩

end Sound

/-- The drive whose end is being written down. -/
def Actor.unwriting : Actor → Option Nat
  | .unreadUnwrote d => some d
  | .unwrote d _ => some d
  | _ => none

/-- The drive that a `write_unwritten` found unwritten. -/
def Actor.writes : Actor → Option Nat
  | .writing d => some d
  | .storing d => some d
  | .clearing d _ => some d
  | .checking d => some d
  | .forgetting d => some d
  | _ => none

/-- The drive ended, or one that wrote its end down is to tell it. -/
def EndsSoon (s : Drives) (d : Nat) : Prop := (s.drive d).ended = true ∨ ∃ b ∈ s.actors, b.unwriting = some d

/-- A drive that is unwritten, or was when a `write_unwritten` found it, ends. -/
structure Owing (s : Drives) : Prop where
  unwritten : ∀ d < s.made, (s.drive d).unwritten.isSome = true → EndsSoon s d
  writing : ∀ a ∈ s.actors, ∀ d, a.writes = some d → EndsSoon s d

section Owing

variable {s : Drives} {i d : Nat} {a a' : Actor} {e : Effect} {m : Move}

theorem EndsSoon.goesTo (h : EndsSoon s d) (hi : s.actors[i]? = some a) (ha : a.unwriting ≠ some d) (a' : Actor) :
    EndsSoon (s.goesTo i a') d := by
  exact h.imp_right fun hends => exists_mem_set hi hends fun hold => absurd hold ha

theorem EndsSoon.begins (h : EndsSoon s d) (a : Actor) : EndsSoon { s with actors := s.actors ++ [a] } d :=
  h.imp_right fun ⟨b, hb, hd⟩ => ⟨b, List.mem_append_left _ hb, hd⟩

/-- One that wrote an end down tells it, and keeps its place until then. -/
theorem Acts.unwriting (h : Acts s a d e a') {d' : Nat} (hd : a.unwriting = some d') :
    d' = d ∧ (e.on (s.drive d)).ended = true := by
  cases h
  case unreadFinishes =>
    cases hd
    exact ⟨rfl, ended_finishes _⟩
  case told =>
    cases hd
    exact ⟨rfl, ended_finishes _⟩
  all_goals cases hd

/-- What is written down of a drive is by one that tells its end. -/
theorem Acts.writesDown (h : Acts s a d e a') :
    ((e.on (s.drive d)).unwritten.isSome = true → (s.drive d).unwritten.isSome = true) ∨ a'.unwriting = some d := by
  cases h
  case unreads => exact .inr rfl
  case unwrites => exact .inr rfl
  case clears | clearsNone => exact .inl nofun
  all_goals exact .inl id

theorem Acts.writes (h : Acts s a d e a') {d' : Nat} (hw : a'.writes = some d') : a.writes = some d' := by
  cases h
  case owes | owesNone | stored | clears | clearsNone | checked => exact hw
  all_goals cases hw

theorem EndsSoon.acts (h : EndsSoon s d) (hi : s.actors[i]? = some a) {d' : Nat} (hacts : Acts s a d' e a') :
    EndsSoon ((s.effect d' e).goesTo i a') d := by
  by_cases hunwriting : a.unwriting = some d
  · obtain ⟨rfl, hended⟩ := hacts.unwriting hunwriting
    left
    change ((s.effect d e).drive d).ended = true
    rw [effect_drive_self]
    exact hended
  · have heffect : EndsSoon (s.effect d' e) d := h.imp_left ended_effect
    exact heffect.goesTo hi hunwriting a'

theorem EndsSoon.make (h : EndsSoon s d) (hd : d < s.made) (build : String) : EndsSoon (s.make build) d := by
  refine h.imp_left fun hended => ?_
  rw [make_drive_of_lt hd]
  exact hended

theorem EndsSoon.forget (h : EndsSoon s d) (d' : Nat) : EndsSoon (s.forget d') d := by
  unfold EndsSoon
  rw [forget_drive, forget_actors]
  exact h

theorem endsSoon_step (h : EndsSoon s d) (hd : d < s.made) (m : Move) : EndsSoon (step s m) d := by
  have hdoes := step_does s m
  generalize step s m = s' at hdoes ⊢
  cases hdoes with
  | nothing => exact h
  | called m ha => exact h.begins _
  | wrote m hunwritten hheld => exact h.begins _
  | acted hi hacts hm => exact h.acts hi hacts
  | reading hi hfree hheld => exact h.goesTo hi nofun _
  | made hi hfree hnone => exact (h.make hd _).goesTo hi nofun _
  | replaced hi hended => exact (h.make hd _).goesTo hi nofun _
  | @spawned i d' hi =>
    have hanswered : EndsSoon (s.goesTo i (.answered .ensure d')) d := h.goesTo hi nofun _
    exact hanswered.imp_right fun ⟨b, hb, hbd⟩ => ⟨b, List.mem_append_left _ hb, hbd⟩
  | @forgot i d' a hi ha hfree =>
    refine (h.forget d').goesTo (getElem?_forget hi d') ?_ _
    rcases ha with rfl | rfl
    all_goals nofun
  | drained hi hfree => exact h.goesTo hi nofun _
  | aborted hi => exact h.goesTo hi nofun _
  | returned hi hover => exact h.goesTo hi nofun _
  | began hi => exact h.goesTo hi nofun _
  | cancelled hi haborted ha =>
    refine h.goesTo hi ?_ _
    rcases ha with rfl | rfl | rfl
    all_goals nofun

theorem drive_of_writes (h : a.writes = some d) : a.drive = some d := by
  unfold Actor.writes at h
  split at h
  all_goals cases h
  all_goals rfl

/-- The writers are those that were, or one that found its drive unwritten. -/
theorem writes_step {b : Actor} (hb : b ∈ (step s m).actors) (hw : b.writes = some d) :
    (∃ a ∈ s.actors, a.writes = some d) ∨ (s.drive d).unwritten.isSome = true ∧ ∃ build, s.drives build = some d := by
  have hdoes := step_does s m
  generalize step s m = s' at hdoes hb
  cases hdoes with
  | nothing => exact .inl ⟨b, hb, hw⟩
  | called m ha =>
    rcases List.mem_append.mp hb with hb | hb
    · exact .inl ⟨b, hb, hw⟩
    · rw [List.mem_singleton.mp hb] at hw
      rcases ha with rfl | ⟨k, build, rfl⟩
      all_goals cases hw
  | wrote m hunwritten hheld =>
    rcases List.mem_append.mp hb with hb | hb
    · exact .inl ⟨b, hb, hw⟩
    · rw [List.mem_singleton.mp hb] at hw
      cases hw
      exact .inr ⟨hunwritten, hheld⟩
  | @acted m i d' a a' e hi hacts hm =>
    rcases List.mem_or_eq_of_mem_set hb with hb | rfl
    · exact .inl ⟨b, hb, hw⟩
    · exact .inl ⟨a, List.mem_of_getElem? hi, hacts.writes hw⟩
  | @spawned i d' hi =>
    rcases List.mem_append.mp hb with hb | hb
    · rcases List.mem_or_eq_of_mem_set hb with hb | rfl
      · exact .inl ⟨b, hb, hw⟩
      · cases hw
    · rw [List.mem_singleton.mp hb] at hw
      cases hw
  | @forgot i d' a hi ha hfree =>
    change b ∈ (s.forget d').actors.set i .gone at hb
    rw [forget_actors] at hb
    rcases List.mem_or_eq_of_mem_set hb with hb | rfl
    · exact .inl ⟨b, hb, hw⟩
    · cases hw
  | reading | made | replaced | drained | aborted | returned | began | cancelled =>
    rcases List.mem_or_eq_of_mem_set hb with hb | rfl
    · exact .inl ⟨b, hb, hw⟩
    · cases hw

/-- What is unwritten was, or is being written down. -/
theorem unwritten_step (hd : d < (step s m).made) (hu : ((step s m).drive d).unwritten.isSome = true) :
    d < s.made ∧ (s.drive d).unwritten.isSome = true ∨ ∃ b ∈ (step s m).actors, b.unwriting = some d := by
  have hdoes := step_does s m
  generalize step s m = s' at hdoes hd hu ⊢
  have hmake : ∀ build, d < s.made + 1 → ((s.make build).drive d).unwritten.isSome = true →
      d < s.made ∧ (s.drive d).unwritten.isSome = true := by
    intro build hlt hu
    by_cases heq : d = s.made
    · subst heq
      rw [make_drive_made] at hu
      cases hu
    · have hlt : d < s.made := by omega
      rw [make_drive_of_lt hlt] at hu
      exact ⟨hlt, hu⟩
  cases hdoes with
  | @acted m i d' a a' e hi hacts hm =>
    by_cases heq : d = d'
    · subst heq
      rcases hacts.writesDown with hwas | hnew
      · change ((s.effect d e).drive d).unwritten.isSome = true at hu
        rw [effect_drive_self] at hu
        exact .inl ⟨hd, hwas hu⟩
      · exact .inr ⟨a', mem_set_self hi, hnew⟩
    · change ((s.effect d' e).drive d).unwritten.isSome = true at hu
      rw [effect_drive_ne heq] at hu
      exact .inl ⟨hd, hu⟩
  | made hi hfree hnone => exact .inl (hmake _ hd hu)
  | replaced hi hended => exact .inl (hmake _ hd hu)
  | @forgot i d' a hi ha hfree =>
    change d < (s.forget d').made at hd
    change ((s.forget d').drive d).unwritten.isSome = true at hu
    rw [forget_made] at hd
    rw [forget_drive] at hu
    exact .inl ⟨hd, hu⟩
  | nothing | called | wrote | reading | spawned | drained | aborted | returned | began | cancelled => exact .inl ⟨hd, hu⟩

theorem owing_step (hs : Sound s) (h : Owing s) (m : Move) : Owing (step s m) := by
  refine ⟨fun d hd hu => ?_, fun b hb d hw => ?_⟩
  · rcases unwritten_step hd hu with ⟨hlt, hwas⟩ | hnew
    · exact endsSoon_step (h.unwritten d hlt hwas) hlt m
    · exact .inr hnew
  · rcases writes_step hb hw with ⟨a, ha, hwas⟩ | ⟨hunwritten, build, hheld⟩
    · exact endsSoon_step (h.writing a ha d hwas) (hs.known a ha d (drive_of_writes hwas)) m
    · have hlt := (hs.held build d hheld).1
      exact endsSoon_step (h.unwritten d hlt hunwritten) hlt m

theorem owing_new : Owing Drives.new := ⟨nofun, nofun⟩

end Owing

end DistributedMesh.Driving
