import DistributedMesh.TransportChunking
import Mathlib

namespace DistributedMesh.Chunking

variable {T B E : Type}

/-- The runs and refusals so far of packing one item at a time, with the run being filled and its last encoding. -/
structure Filling (T B E : Type) where
  out : List (List T × B)
  refused : List E
  batch : List T
  fitted : Option B

/-- One more item: it joins the run, or closes it and begins the next, or is refused alone. -/
def fill (encode : List T → Except E B) (s : Filling T B E) (item : T) : Filling T B E :=
  match encode (s.batch ++ [item]) with
  | .ok b => { s with batch := s.batch ++ [item], fitted := some b }
  | .error _ =>
    let closed := match s.fitted with
      | some b => { s with out := s.out ++ [(s.batch, b)], batch := [], fitted := none }
      | none => s
    match encode [item] with
    | .ok b => { closed with batch := closed.batch ++ [item], fitted := some b }
    | .error e => { closed with refused := closed.refused ++ [e] }

def Filling.finish (s : Filling T B E) : List (List T × B) × List E :=
  match s.fitted with
  | some b => (s.out ++ [(s.batch, b)], s.refused)
  | none => (s.out, s.refused)

/-- The packing that adds one item at a time, encoding the run anew after each. -/
def oneAtATime (encode : List T → Except E B) (items : List T) : List (List T × B) × List E :=
  (items.foldl (fill encode) ⟨[], [], [], none⟩).finish

/-- A run of `items` that is refused is refused with more items after it. -/
def RefusalGrows (encode : List T → Except E B) (items : List T) : Prop :=
  ∀ run more, run ≠ [] → run ++ more <:+: items → (∃ e, encode run = .error e) → ∃ e, encode (run ++ more) = .error e

section Longest

variable {encode : List T → Except E B} {rest items : List T}

/-- A length known to fit below one known not to. -/
structure Bracket (encode : List T → Except E B) (rest : List T) (excess : Nat) (fit : Nat × B) : Prop where
  lt : fit.1 < excess
  le : excess ≤ rest.length
  refused : ∃ e, encode (rest.take excess) = .error e

theorem double_bracket {n excess : Nat} {fit : Nat × B} (hn : 0 < n) (h : Bracket encode rest excess fit)
    (hfit : fit.1 < n) :
    Bracket encode rest (double encode rest n excess fit hn).1 (double encode rest n excess fit hn).2 := by
  fun_induction double encode rest n excess fit hn with
  | case1 n fit hn hlt b he ih => exact ih ⟨hlt, h.le, h.refused⟩ (by simp only; omega)
  | case2 n fit hn hlt e he =>
    have hle := h.le
    exact ⟨hfit, by omega, e, he⟩
  | case3 => exact h

theorem halve_next_refused {excess : Nat} {fit : Nat × B} (h : Bracket encode rest excess fit) :
    (halve encode rest excess fit).1 < rest.length ∧
      ∃ e, encode (rest.take ((halve encode rest excess fit).1 + 1)) = .error e := by
  fun_induction halve encode rest excess fit with
  | case1 excess fit hlt b he ih =>
    have hwas := h.lt
    exact ih ⟨by simp only; omega, h.le, h.refused⟩
  | case2 excess fit hlt e he ih =>
    have hle := h.le
    exact ih ⟨by omega, by omega, e, he⟩
  | case3 excess fit hend =>
    have hlt := h.lt
    have hle := h.le
    obtain ⟨e, he⟩ := h.refused
    rw [show excess = fit.1 + 1 by omega] at he
    exact ⟨by omega, e, he⟩

/-- The run found is the longest: with one more item it is refused. -/
theorem longest_next_refused {b : B} (hone : encode (rest.take 1) = .ok b) (hall : ∃ e, encode rest = .error e) :
    (longest encode rest b).1 < rest.length ∧
      ∃ e, encode (rest.take ((longest encode rest b).1 + 1)) = .error e := by
  have hlen : 1 < rest.length := by
    by_contra hshort
    obtain ⟨e, he⟩ := hall
    rw [List.take_of_length_le (by omega), he] at hone
    simp at hone
  have hwhole : Bracket encode rest rest.length (1, b) := by
    refine ⟨hlen, Nat.le_refl _, ?_⟩
    rw [List.take_length]
    exact hall
  exact halve_next_refused (double_bracket (by omega) hwhole (by simp))

end Longest

section OneAtATime

variable {encode : List T → Except E B} {items : List T} {out : List (List T × B)} {refused : List E}

theorem RefusalGrows.of_suffix {xs ys : List T} (h : RefusalGrows encode (xs ++ ys)) : RefusalGrows encode ys := by
  intro run more hne hin
  exact h run more hne (hin.trans (List.suffix_append xs ys).isInfix)

/-- Every beginning of a run that fits, fits. -/
theorem RefusalGrows.take_fits (h : RefusalGrows encode items) {k j : Nat} {b : B} (hk : encode (items.take k) = .ok b) (hj : 0 < j)
    (hjk : j ≤ k) (hne : items ≠ []) : ∃ b', encode (items.take j) = .ok b' := by
  cases hcase : encode (items.take j) with
  | ok b' => exact ⟨b', rfl⟩
  | error e =>
    have hsplit := List.take_append_drop j (items.take k)
    rw [List.take_take, Nat.min_eq_left hjk] at hsplit
    have hsome : items.take j ≠ [] := by
      simp only [ne_eq, List.take_eq_nil_iff, not_or]
      exact ⟨by omega, hne⟩
    have hin : items.take j ++ (items.take k).drop j <:+: items := by
      rw [hsplit]
      exact (List.take_prefix k items).isInfix
    obtain ⟨e', he'⟩ := h _ _ hsome hin ⟨e, hcase⟩
    rw [hsplit, hk] at he'
    simp at he'

/-- Items that fit one after another fill the run. -/
theorem foldl_fill_run (out : List (List T × B)) (refused : List E) {run : List T} (hne : run ≠ [])
    (hfits : ∀ j, 0 < j → j ≤ run.length → ∃ b, encode (run.take j) = .ok b) :
    ∃ b, encode run = .ok b ∧ run.foldl (fill encode) ⟨out, refused, [], none⟩ = ⟨out, refused, run, some b⟩ := by
  induction run using List.reverseRecOn with
  | nil => exact absurd rfl hne
  | append_singleton xs x ih =>
    obtain ⟨b, hb⟩ := hfits (xs ++ [x]).length (by simp) (Nat.le_refl _)
    rw [List.take_length] at hb
    refine ⟨b, hb, ?_⟩
    rw [List.foldl_append, List.foldl_cons, List.foldl_nil]
    by_cases hxs : xs = []
    · subst hxs
      rw [List.nil_append] at hb
      simp [fill, hb]
    · have hbefore : ∀ j, 0 < j → j ≤ xs.length → ∃ b, encode (xs.take j) = .ok b := by
        intro j hj hle
        obtain ⟨b', hb'⟩ := hfits j hj (by rw [List.length_append]; omega)
        rw [List.take_append_of_le_length hle] at hb'
        exact ⟨b', hb'⟩
      obtain ⟨b', -, hfold⟩ := ih hxs hbefore
      rw [hfold]
      simp [fill, hb]

/-- The item that closes a run begins the next as it would begin the first. -/
theorem fill_closes {run : List T} {b : B} {item : T} {e : E} (hrefused : encode (run ++ [item]) = .error e) :
    fill encode ⟨out, refused, run, some b⟩ item = fill encode ⟨out ++ [(run, b)], refused, [], none⟩ item := by
  unfold fill
  rw [hrefused]
  simp only [List.nil_append]
  cases encode [item] <;> rfl

theorem foldl_fill_eq (h : RefusalGrows encode items) : ∀ (out : List (List T × B)) (refused : List E),
    (items.foldl (fill encode) ⟨out, refused, [], none⟩).finish
      = (out ++ (packInOrder encode items).1, refused ++ (packInOrder encode items).2) := by
  fun_induction packInOrder encode items with
  | case1 => simp [Filling.finish]
  | case2 item more b he =>
    intro out refused
    have hfits : ∀ j, 0 < j → j ≤ (item :: more).length → ∃ b, encode ((item :: more).take j) = .ok b := by
      intro j hj hle
      exact h.take_fits (by rw [List.take_length]; exact he) hj hle (by simp)
    obtain ⟨b', hb', hfold⟩ := foldl_fill_run out refused (by simp) hfits
    rw [hfold, Filling.finish]
    rw [he] at hb'
    cases hb'
    simp
  | case3 item more e he e' he' packed ih =>
    intro out refused
    have halone : encode [item] = .error e' := he'
    have hstep : fill encode ⟨out, refused, [], none⟩ item = ⟨out, refused ++ [e'], [], none⟩ := by
      simp [fill, halone]
    have hmore : RefusalGrows encode more := RefusalGrows.of_suffix (show RefusalGrows encode ([item] ++ more) from h)
    rw [List.foldl_cons, hstep, ih hmore]
    simp [packed]
  | case4 item more e he b he' fit packed ih =>
    intro out refused
    obtain ⟨hpos, hfit⟩ : Fits encode (item :: more) fit := longest_fits he'
    obtain ⟨hlt, e', hnext⟩ : fit.1 < (item :: more).length ∧ ∃ e, encode ((item :: more).take (fit.1 + 1)) = .error e :=
      longest_next_refused he' ⟨e, he⟩
    -- the run found, and the item that one at a time finds not to join it
    have hrun : (item :: more).take fit.1 ≠ [] := by
      rw [List.take_cons hpos]
      simp
    have hfits : ∀ j, 0 < j → j ≤ ((item :: more).take fit.1).length →
        ∃ b, encode (((item :: more).take fit.1).take j) = .ok b := by
      intro j hj hle
      rw [List.length_take] at hle
      rw [List.take_take, Nat.min_eq_left (by omega)]
      exact h.take_fits hfit hj (by omega) (by simp)
    obtain ⟨b', hb', hfold⟩ := foldl_fill_run out refused hrun hfits
    have hbytes : b' = fit.2 := by
      rw [hfit] at hb'
      exact (Except.ok.inj hb').symm
    have hdrop : (item :: more).drop fit.1 = (item :: more)[fit.1] :: (item :: more).drop (fit.1 + 1) :=
      List.drop_eq_getElem_cons hlt
    have hover : encode ((item :: more).take fit.1 ++ [(item :: more)[fit.1]]) = .error e' := by
      rw [← List.take_succ_eq_append_getElem hlt]
      exact hnext
    have hsuffix : RefusalGrows encode ((item :: more).drop fit.1) := by
      rw [← List.take_append_drop fit.1 (item :: more)] at h
      exact h.of_suffix
    have hrest := ih hsuffix (out ++ [((item :: more).take fit.1, fit.2)]) refused
    calc ((item :: more).foldl (fill encode) ⟨out, refused, [], none⟩).finish
        = (((item :: more).drop fit.1).foldl (fill encode) ⟨out, refused, (item :: more).take fit.1, some fit.2⟩).finish := by
          rw [← hbytes, ← hfold, ← List.foldl_append, List.take_append_drop]
      _ = (((item :: more).drop fit.1).foldl (fill encode)
            ⟨out ++ [((item :: more).take fit.1, fit.2)], refused, [], none⟩).finish := by
          rw [hdrop, List.foldl_cons, List.foldl_cons, fill_closes hover]
      _ = _ := by
          rw [hrest]
          simp [packed]

/-- Doubling and halving finds the runs that adding one item at a time does. -/
theorem packInOrder_eq_oneAtATime (h : RefusalGrows encode items) : packInOrder encode items = oneAtATime encode items := by
  rw [oneAtATime, foldl_fill_eq h]
  simp

end OneAtATime

section Kept

variable {encode : List T → Except E B} {items : List T}

/-- Each item with its refusal, where it was refused alone. -/
structure Marked (encode : List T → Except E B) (items : List T) (runs : List (List T × B)) (refused : List E)
    (marked : List (T × Option E)) : Prop where
  items : marked.map Prod.fst = items
  kept : (runs.map Prod.fst).flatten = (marked.filter fun m => m.2.isNone).map Prod.fst
  refused : marked.filterMap Prod.snd = refused
  alone : ∀ t e, (t, some e) ∈ marked → encode [t] = .error e

theorem filter_isNone_kept (run : List T) :
    ((run.map fun t => (t, (none : Option E))).filter fun m => m.2.isNone).map Prod.fst = run := by
  induction run with
  | nil => rfl
  | cons t run ih => simp [ih]

/-- A run before what was packed after it. -/
theorem Marked.run (run : List T) (b : B) {runs : List (List T × B)} {refused : List E} {marked : List (T × Option E)}
    (h : Marked encode items runs refused marked) :
    Marked encode (run ++ items) ((run, b) :: runs) refused ((run.map fun t => (t, none)) ++ marked) := by
  refine ⟨?_, ?_, ?_, ?_⟩
  · rw [List.map_append, h.items, List.map_map]
    simp [Function.comp_def]
  · rw [List.map_cons, List.flatten_cons, List.filter_append, List.map_append, h.kept, filter_isNone_kept]
  · rw [List.filterMap_append, h.refused]
    simp
  · intro t e hmem
    rcases List.mem_append.mp hmem with hmem | hmem
    · simp at hmem
    · exact h.alone t e hmem

theorem packInOrder_marked (encode : List T → Except E B) (items : List T) :
    ∃ marked, Marked encode items (packInOrder encode items).1 (packInOrder encode items).2 marked := by
  fun_induction packInOrder encode items with
  | case1 => exact ⟨[], rfl, rfl, rfl, by simp⟩
  | case2 item more b he =>
    have hnone : Marked encode [] ([] : List (List T × B)) [] [] := ⟨rfl, rfl, rfl, by simp⟩
    have hrun := hnone.run (item :: more) b
    rw [List.append_nil] at hrun
    exact ⟨_, hrun⟩
  | case3 item more e he e' he' packed ih =>
    obtain ⟨marked, h⟩ := ih
    refine ⟨(item, some e') :: marked, by simp [h.items], by simpa using h.kept, by simp [h.refused, packed], ?_⟩
    intro t e'' hmem
    rcases List.mem_cons.mp hmem with heq | hmem
    · cases heq
      exact he'
    · exact h.alone t e'' hmem
  | case4 item more e he b he' fit packed ih =>
    obtain ⟨marked, h⟩ := ih
    have hrun := h.run ((item :: more).take fit.1) fit.2
    rw [List.take_append_drop] at hrun
    exact ⟨_, hrun⟩

/-- Where every item of a run that fits also fits alone, what is kept is the items that fit alone. -/
theorem packInOrder_filter (h : ∀ run b, run <:+: items → encode run = .ok b → ∀ t ∈ run, ∃ b', encode [t] = .ok b') :
    ((packInOrder encode items).1.map Prod.fst).flatten = items.filter fun t => (encode [t]).isOk := by
  have hself : ∀ run b, run <:+: items → encode run = .ok b → run.filter (fun t => (encode [t]).isOk) = run := by
    intro run b hin hrun
    rw [List.filter_eq_self]
    intro t ht
    obtain ⟨b', hb'⟩ := h run b hin hrun t ht
    rw [hb']
    rfl
  clear h
  fun_induction packInOrder encode items with
  | case1 => rfl
  | case2 item more b he =>
    rw [hself _ b (List.infix_refl _) he]
    simp
  | case3 item more e he e' he' packed ih =>
    have halone : encode [item] = .error e' := he'
    have hmore := ih fun run b hin => hself run b (hin.trans (List.suffix_cons item more).isInfix)
    rw [List.filter_cons_of_neg (by rw [halone]; simp [Except.isOk, Except.toBool])]
    exact hmore
  | case4 item more e he b he' fit packed ih =>
    obtain ⟨-, hfit⟩ : Fits encode (item :: more) fit := longest_fits he'
    have hrun := hself _ fit.2 (List.take_prefix fit.1 (item :: more)).isInfix hfit
    have hmore := ih fun run b hin => hself run b (hin.trans (List.drop_suffix fit.1 (item :: more)).isInfix)
    rw [List.map_cons, List.flatten_cons]
    conv_rhs => rw [← List.take_append_drop fit.1 (item :: more), List.filter_append, hrun, ← hmore]

end Kept

section Encodes

variable {encode : List T → Except E B} {rest items : List T}

theorem double_pos {n : Nat} (hn : 0 < n) : 0 < n * 2 := by omega

/-- How often doubling encodes. -/
def doubleEncodes (encode : List T → Except E B) (rest : List T) (n excess : Nat) (hn : 0 < n) : Nat :=
  if n < excess then
    match encode (rest.take n) with
    | .ok _ => doubleEncodes encode rest (n * 2) excess (double_pos hn) + 1
    | .error _ => 1
  else 0
termination_by excess - n

/-- How often halving encodes. -/
def halveEncodes (encode : List T → Except E B) (rest : List T) (excess fit : Nat) : Nat :=
  if 1 < excess - fit then
    match encode (rest.take (fit + (excess - fit) / 2)) with
    | .ok _ => halveEncodes encode rest excess (fit + (excess - fit) / 2) + 1
    | .error _ => halveEncodes encode rest (fit + (excess - fit) / 2) fit + 1
  else 0
termination_by excess - fit

/-- How often each pass of the packing encodes: the remainder, its first item, and the lengths tried between. -/
def packEncodes (encode : List T → Except E B) : List T → List Nat
  | [] => []
  | item :: more =>
    match encode (item :: more) with
    | .ok _ => [1]
    | .error _ =>
      match _h : encode ((item :: more).take 1) with
      | .error _ => 2 :: packEncodes encode more
      | .ok b =>
        let doubled := double encode (item :: more) 2 (item :: more).length (1, b) Nat.two_pos
        let fit := longest encode (item :: more) b
        (doubleEncodes encode (item :: more) 2 (item :: more).length Nat.two_pos
            + halveEncodes encode (item :: more) doubled.1 doubled.2.1 + 2)
          :: packEncodes encode ((item :: more).drop fit.1)
termination_by items => items.length
decreasing_by
  · simp
  · have hpos : 0 < (longest encode (item :: more) b).1 := (longest_fits _h).1
    rw [List.length_drop, List.length_cons]
    omega

/-- Halving a gap of at most `2 ^ k` takes at most `k` encodes. -/
theorem halveEncodes_le {excess fit k : Nat} (h : excess - fit ≤ 2 ^ k) : halveEncodes encode rest excess fit ≤ k := by
  induction k generalizing excess fit with
  | zero =>
    rw [halveEncodes, if_neg (by simpa using h)]
  | succ k ih =>
    rw [Nat.pow_succ] at h
    rw [halveEncodes]
    split
    next hgap =>
      split
      next => exact Nat.succ_le_succ (ih (by omega))
      next => exact Nat.succ_le_succ (ih (by omega))
    next => exact Nat.zero_le _

/-- Doubling tries the powers of two below the length, and leaves a gap no wider than the last that fits. -/
theorem doubleEncodes_le {n excess : Nat} {fit : Nat × B} (hn : 0 < n) :
    ∀ j, n = 2 ^ (j + 1) → fit.1 = 2 ^ j → 2 ^ j < excess →
      doubleEncodes encode rest n excess hn + j ≤ excess.log2 ∧
        ∃ k ≤ excess.log2, (double encode rest n excess fit hn).1 - (double encode rest n excess fit hn).2.1 ≤ 2 ^ k := by
  have hlog : ∀ k, 2 ^ k ≤ excess → k ≤ excess.log2 := by
    intro k hk
    have hpos : 0 < 2 ^ k := Nat.two_pow_pos k
    exact (Nat.le_log2 (by omega)).mpr hk
  fun_induction double encode rest n excess fit hn with
  | case1 n fit hn hlt b he ih =>
    intro j hnj hfit hlow
    obtain ⟨hcount, hgap⟩ := ih (j + 1) (by rw [hnj, ← Nat.pow_succ]) hnj (by omega)
    rw [doubleEncodes, if_pos hlt, he]
    exact ⟨by simp only; omega, hgap⟩
  | case2 n fit hn hlt e he =>
    intro j hnj hfit hlow
    rw [doubleEncodes, if_pos hlt, he]
    have hj := hlog (j + 1) (by omega)
    refine ⟨by simp only; omega, j, by omega, ?_⟩
    rw [hnj, hfit, Nat.pow_succ]
    omega
  | case3 n fit hn hge =>
    intro j hnj hfit hlow
    rw [doubleEncodes, if_neg hge]
    have hj := hlog j (by omega)
    rw [Nat.pow_succ] at hnj
    exact ⟨by omega, j, hj, by simp only; omega⟩

theorem packEncodes_refused {item : T} {more : List T} {e e' : E} (he : encode (item :: more) = .error e)
    (he' : encode ((item :: more).take 1) = .error e') :
    packEncodes encode (item :: more) = 2 :: packEncodes encode more := by
  rw [packEncodes]
  simp only [he]
  split
  next => rfl
  next b hb =>
    rw [he'] at hb
    simp at hb

/-- A pass that ends a run encodes the remainder, its first item, and the lengths between. -/
theorem packEncodes_run {item : T} {more : List T} {e : E} {b : B} (he : encode (item :: more) = .error e)
    (hone : encode ((item :: more).take 1) = .ok b) :
    ∃ k, packEncodes encode (item :: more) = k :: packEncodes encode ((item :: more).drop (longest encode (item :: more) b).1) ∧
      k ≤ 2 * (item :: more).length.log2 + 2 := by
  have hlen : 1 < (item :: more).length := by
    by_contra hshort
    rw [List.take_of_length_le (by omega), he] at hone
    simp at hone
  obtain ⟨hdouble, k, hk, hgap⟩ := @doubleEncodes_le T B E encode (item :: more) 2 (item :: more).length (1, b)
    (by omega) 0 rfl rfl (by simpa using hlen)
  have hhalve : halveEncodes encode (item :: more) (double encode (item :: more) 2 (item :: more).length (1, b) (by omega)).1
      (double encode (item :: more) 2 (item :: more).length (1, b) (by omega)).2.1 ≤ k := halveEncodes_le hgap
  rw [packEncodes]
  simp only [he]
  split
  next e' hb =>
    rw [hone] at hb
    simp at hb
  next b' hb =>
    rw [hone] at hb
    cases hb
    exact ⟨_, rfl, by omega⟩

/-- Each pass of the packing is one run or one refusal, and encodes no more than twice for each halving of what is left. -/
theorem packEncodes_le (encode : List T → Except E B) (items : List T) :
    (packEncodes encode items).length
      = (packInOrder encode items).1.length + (packInOrder encode items).2.length ∧
    ∀ k ∈ packEncodes encode items, k ≤ 2 * items.length.log2 + 2 := by
  have hmono : ∀ m n : Nat, m ≤ n → m.log2 ≤ n.log2 := by
    intro m n hmn
    rw [Nat.log2_eq_log_two, Nat.log2_eq_log_two]
    exact Nat.log_mono_right hmn
  fun_induction packInOrder encode items with
  | case1 => simp [packEncodes]
  | case2 item more b he =>
    rw [packEncodes, he]
    simp
  | case3 item more e he e' he' packed ih =>
    rw [packEncodes_refused he he']
    have hlog := hmono more.length (item :: more).length (by simp)
    refine ⟨by simp only [List.length_cons, ih.1, packed]; omega, fun k hk => ?_⟩
    rcases List.mem_cons.mp hk with rfl | hk
    · omega
    · exact Nat.le_trans (ih.2 k hk) (by omega)
  | case4 item more e he b he' fit packed ih =>
    obtain ⟨k, heq, hle⟩ := packEncodes_run he he'
    rw [heq]
    have hlog := hmono ((item :: more).drop fit.1).length (item :: more).length (by rw [List.length_drop]; omega)
    refine ⟨?_, fun j hj => ?_⟩
    · have hrest : (packEncodes encode ((item :: more).drop fit.1)).length = packed.1.length + packed.2.length := ih.1
      show (packEncodes encode ((item :: more).drop fit.1)).length + 1 = packed.1.length + 1 + packed.2.length
      omega
    · rcases List.mem_cons.mp hj with rfl | hj
      · exact hle
      · exact Nat.le_trans (ih.2 j hj) (by omega)

end Encodes

section Greedy

variable {encode : List T → Except E B} {items : List T}

/-- Each run is the longest beginning of what is left that fits, and an item that does not fit alone is refused. -/
inductive Greedy (encode : List T → Except E B) : List T → List (List T × B) → List E → Prop where
  | nil : Greedy encode [] [] []
  | refuse {item : T} {more : List T} {e : E} {runs : List (List T × B)} {refused : List E}
    (h : encode [item] = .error e) (rest : Greedy encode more runs refused) : Greedy encode (item :: more) runs (e :: refused)
  | run {run more : List T} {b : B} {runs : List (List T × B)} {refused : List E} (hne : run ≠ [])
    (h : encode run = .ok b)
    (longest : ∀ longer, run <+: longer → longer <+: run ++ more → longer ≠ run → ∃ e, encode longer = .error e)
    (rest : Greedy encode more runs refused) : Greedy encode (run ++ more) ((run, b) :: runs) refused

/-- A run longer than the longest is refused, for the longest with one more item is. -/
theorem RefusalGrows.longer_refused (h : RefusalGrows encode items) {k : Nat} (hk : k < items.length) {e : E}
    (hnext : encode (items.take (k + 1)) = .error e) {longer : List T} (hlong : items.take k <+: longer)
    (hin : longer <+: items) (hne : longer ≠ items.take k) : ∃ e, encode longer = .error e := by
  have hlen : k < longer.length := by
    by_contra hshort
    have hle := hlong.length_le
    rw [List.length_take] at hle
    exact hne (hlong.eq_of_length (by rw [List.length_take]; omega)).symm
  have htake : longer.take (k + 1) = items.take (k + 1) := by
    conv_lhs => rw [List.prefix_iff_eq_take.mp hin]
    rw [List.take_take, Nat.min_eq_left (by omega)]
  have hsplit := List.take_append_drop (k + 1) longer
  rw [htake] at hsplit
  have hsome : items.take (k + 1) ≠ [] := by
    intro hnil
    have hzero := congrArg List.length hnil
    rw [List.length_take, List.length_nil] at hzero
    omega
  rw [← hsplit]
  exact h _ _ hsome (by rw [hsplit]; exact hin.isInfix) ⟨e, hnext⟩

theorem packInOrder_greedy (h : RefusalGrows encode items) :
    Greedy encode items (packInOrder encode items).1 (packInOrder encode items).2 := by
  fun_induction packInOrder encode items with
  | case1 => exact .nil
  | case2 item more b he =>
    have hrun : Greedy encode ((item :: more) ++ []) [(item :: more, b)] [] := by
      refine .run (by simp) he (fun longer hlong hwhole hne => ?_) .nil
      rw [List.append_nil] at hwhole
      exact absurd (hlong.eq_of_length (Nat.le_antisymm hlong.length_le hwhole.length_le)).symm hne
    rwa [List.append_nil] at hrun
  | case3 item more e he e' he' packed ih =>
    exact .refuse he' (ih (RefusalGrows.of_suffix (show RefusalGrows encode ([item] ++ more) from h)))
  | case4 item more e he b he' fit packed ih =>
    obtain ⟨hpos, hfit⟩ : Fits encode (item :: more) fit := longest_fits he'
    obtain ⟨hlt, e', hnext⟩ : fit.1 < (item :: more).length ∧ ∃ e, encode ((item :: more).take (fit.1 + 1)) = .error e :=
      longest_next_refused he' ⟨e, he⟩
    have hne : (item :: more).take fit.1 ≠ [] := by
      rw [List.take_cons hpos]
      simp
    have hsuffix : RefusalGrows encode ((item :: more).drop fit.1) := by
      rw [← List.take_append_drop fit.1 (item :: more)] at h
      exact h.of_suffix
    have hrun : Greedy encode ((item :: more).take fit.1 ++ (item :: more).drop fit.1)
        (((item :: more).take fit.1, fit.2) :: packed.1) packed.2 := by
      refine .run hne hfit (fun longer hlong hin hne => ?_) (ih hsuffix)
      rw [List.take_append_drop] at hin
      exact h.longer_refused hlt hnext hlong hin hne
    rwa [List.take_append_drop] at hrun

end Greedy

/-- Packing by doubling and halving is packing one item at a time: the same runs, bytes and refusals, each run the longest
that fits; what is left out is the items refused alone; and each pass encodes a number of times logarithmic in the items. -/
theorem packInOrder_as_one_at_a_time {encode : List T → Except E B} {items : List T} (h : RefusalGrows encode items) :
    packInOrder encode items = oneAtATime encode items ∧
    Greedy encode items (packInOrder encode items).1 (packInOrder encode items).2 ∧
    (∃ marked, Marked encode items (packInOrder encode items).1 (packInOrder encode items).2 marked) ∧
    ((∀ run b, run <:+: items → encode run = .ok b → ∀ t ∈ run, ∃ b', encode [t] = .ok b') →
      ((packInOrder encode items).1.map Prod.fst).flatten = items.filter fun t => (encode [t]).isOk) ∧
    (packEncodes encode items).length = (packInOrder encode items).1.length + (packInOrder encode items).2.length ∧
    ∀ k ∈ packEncodes encode items, k ≤ 2 * items.length.log2 + 2 := by
  obtain ⟨hpasses, hencodes⟩ := packEncodes_le encode items
  exact ⟨packInOrder_eq_oneAtATime h, packInOrder_greedy h, packInOrder_marked encode items, packInOrder_filter, hpasses,
    hencodes⟩

/-- Items by their sizes, in runs of no more than a limit. -/
def sized (limit : Nat) (run : List Nat) : Except Nat Nat :=
  if run.sum + 1 ≤ limit then .ok (run.sum + 1) else .error (run.sum + 1)

theorem grows_sized (limit : Nat) (items : List Nat) : RefusalGrows (sized limit) items := by
  rintro run more - - ⟨e, he⟩
  have hover : ¬ run.sum + 1 ≤ limit := by
    intro hle
    simp [sized, hle] at he
  refine ⟨(run ++ more).sum + 1, if_neg ?_⟩
  rw [List.sum_append]
  omega

theorem sized_packed : packInOrder (sized 6) [2, 9, 1, 1, 1, 3, 4] = ([([2], 3), ([1, 1, 1], 4), ([3], 4), ([4], 5)], [10]) ∧
    packInOrder (sized 6) [2, 9, 1, 1, 1, 3, 4] = oneAtATime (sized 6) [2, 9, 1, 1, 1, 3, 4] := by
  have hsame := (packInOrder_as_one_at_a_time (grows_sized 6 [2, 9, 1, 1, 1, 3, 4])).1
  refine ⟨?_, hsame⟩
  rw [hsame]
  decide

end DistributedMesh.Chunking
