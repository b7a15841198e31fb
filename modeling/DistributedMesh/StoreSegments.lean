import DistributedMesh.StoreFraming
import Mathlib.Data.List.Count

namespace DistributedMesh

/-- The parts of a file between its newlines, the part after its last newline included. -/
def segments (file : Bytes) : List Bytes := file.splitOn newline

/-- The segments a newline ends. -/
def terminated (file : Bytes) : List Bytes := (segments file).dropLast

theorem segments_ne_nil (file : Bytes) : segments file ≠ [] := List.splitOn_ne_nil _ _

theorem segments_append_newline (file x : Bytes) :
    segments (file ++ newline :: x) = segments file ++ segments x :=
  List.splitOn_append_cons_self file x

theorem segments_unbroken {x : Bytes} (h : newline ∉ x) : segments x = [x] :=
  List.splitOn_eq_singleton h

theorem segments_ended {x : Bytes} (h : newline ∉ x) : segments (x ++ [newline]) = [x, []] :=
  List.splitOn_append_cons_self_of_not_mem h []

theorem terminated_append_newline (file x : Bytes) :
    terminated (file ++ newline :: x) = segments file ++ terminated x := by
  rw [terminated, segments_append_newline, List.dropLast_append_of_ne_nil (segments_ne_nil x)]
  rfl

/-- The bytes one write of a store puts: a prefix of a newline, or of the line of an object the
writer may append. -/
def Puts (allowed : Bytes → Prop) (w : Bytes) : Prop :=
  w <+: [newline] ∨ ∃ obj, allowed obj ∧ Framed obj ∧ w <+: lineOf obj

/-- A file grown by writes that put objects `allowed` only. -/
def Grows (allowed : Bytes → Prop) (file file' : Bytes) : Prop :=
  ∃ ws : List Bytes, (∀ w ∈ ws, Puts allowed w) ∧ file' = file ++ ws.flatten

theorem Grows.refl {allowed : Bytes → Prop} (file : Bytes) : Grows allowed file file :=
  ⟨[], by simp, by simp⟩

theorem Grows.trans {allowed : Bytes → Prop} {a b c : Bytes} (h : Grows allowed a b)
    (h' : Grows allowed b c) : Grows allowed a c := by
  obtain ⟨ws, hw, rfl⟩ := h
  obtain ⟨ws', hw', rfl⟩ := h'
  refine ⟨ws ++ ws', ?_, by simp⟩
  intro w hm
  exact (List.mem_append.mp hm).elim (hw w) (hw' w)

theorem Grows.put {allowed : Bytes → Prop} (file : Bytes) {w : Bytes} (h : Puts allowed w) :
    Grows allowed file (file ++ w) :=
  ⟨[w], by simpa using h, by simp⟩

theorem Grows.mono {allowed allowed' : Bytes → Prop} {a b : Bytes} (h : Grows allowed a b)
    (hsub : ∀ obj, allowed obj → allowed' obj) : Grows allowed' a b := by
  obtain ⟨ws, hw, rfl⟩ := h
  refine ⟨ws, fun w hm => ?_, rfl⟩
  exact (hw w hm).imp_right fun ⟨obj, ha, hf, hp⟩ => ⟨obj, hsub obj ha, hf, hp⟩

theorem Grows.extends {allowed : Bytes → Prop} {a b : Bytes} (h : Grows allowed a b) : a <+: b := by
  obtain ⟨ws, _, rfl⟩ := h
  exact List.prefix_append _ _

/-- A property of files that one put keeps is kept by every growth. -/
theorem Grows.induct {allowed : Bytes → Prop} {P : Bytes → Prop} {a b : Bytes}
    (h : Grows allowed a b) (ha : P a)
    (step : ∀ file w, P file → Puts allowed w → P (file ++ w)) : P b := by
  obtain ⟨ws, hw, rfl⟩ := h
  induction ws generalizing a with
  | nil => simpa using ha
  | cons w ws ih =>
    rw [List.flatten_cons, ← List.append_assoc]
    exact ih (step a w ha (hw w (by simp))) fun x hx => hw x (by simp [hx])

theorem lineOf_prefixes {w obj : Bytes} (h : w <+: lineOf obj) :
    w = [] ∨ w = lineOf obj ∨ ∃ x, w = newline :: x ∧ x <+: obj := by
  rcases List.prefix_cons_iff.mp h with rfl | ⟨x, rfl, hx⟩
  · exact Or.inl rfl
  · rcases List.prefix_concat_iff.mp hx with rfl | hx
    · exact Or.inr (Or.inl rfl)
    · exact Or.inr (Or.inr ⟨x, rfl, hx⟩)

/-- Every put is nothing, or a newline and then a whole ended object, a prefix of one or nothing. -/
theorem Puts.shape {allowed : Bytes → Prop} {w : Bytes} (h : Puts allowed w) :
    w = [] ∨ ∃ x, w = newline :: x ∧
      (x = [] ∨ ∃ obj, allowed obj ∧ Framed obj ∧ (x = obj ++ [newline] ∨ x <+: obj)) := by
  rcases h with h | ⟨obj, ha, hf, h⟩
  · rcases List.prefix_cons_iff.mp h with rfl | ⟨x, rfl, hx⟩
    · exact Or.inl rfl
    · exact Or.inr ⟨x, rfl, Or.inl (List.prefix_nil.mp hx)⟩
  · rcases lineOf_prefixes h with rfl | rfl | ⟨x, rfl, hx⟩
    · exact Or.inl rfl
    · exact Or.inr ⟨obj ++ [newline], rfl, Or.inr ⟨obj, ha, hf, Or.inl rfl⟩⟩
    · exact Or.inr ⟨x, rfl, Or.inr ⟨obj, ha, hf, Or.inr hx⟩⟩

theorem segments_prefix_framed {x obj : Bytes} (hf : Framed obj) (h : x <+: obj) :
    segments x = [x] :=
  segments_unbroken fun hm => hf.unbroken (h.subset hm)

/-- A put of other objects adds no segment equal to a framed object. -/
theorem count_put {allowed : Bytes → Prop} {file w o : Bytes} (ho : Framed o) (hn : ¬ allowed o)
    (h : Puts allowed w) : (segments (file ++ w)).count o = (segments file).count o := by
  rcases h.shape with rfl | ⟨x, rfl, hx⟩
  · simp
  · rw [segments_append_newline, List.count_append]
    have hzero : (segments x).count o = 0 := by
      apply List.count_eq_zero.mpr
      rcases hx with rfl | ⟨obj, ha, hf, rfl | hx⟩
      · simpa [segments] using ho.ne_nil
      · rw [segments_ended hf.unbroken]
        have hne : o ≠ obj := fun he => hn (he ▸ ha)
        simp [hne, ho.ne_nil]
      · rw [segments_prefix_framed hf hx]
        intro hm
        rw [List.mem_singleton.mp hm] at ho hn
        exact hn (ho.eq_of_extends hf hx ▸ ha)
    omega

theorem count_grows {allowed : Bytes → Prop} {file file' o : Bytes} (ho : Framed o)
    (hn : ¬ allowed o) (h : Grows allowed file file') :
    (segments file').count o = (segments file).count o :=
  h.induct (P := fun f => (segments f).count o = (segments file).count o) rfl
    fun _ _ hf hw => (count_put ho hn hw).trans hf

/-- A put keeps every segment and every terminated one. -/
theorem terminated_put {allowed : Bytes → Prop} {file w o : Bytes} (h : Puts allowed w)
    (ho : o ∈ terminated file) : o ∈ terminated (file ++ w) := by
  rcases h.shape with rfl | ⟨x, rfl, _⟩
  · simpa using ho
  · rw [terminated_append_newline]
    exact List.mem_append_left _ (List.mem_of_mem_dropLast ho)

theorem terminated_grows {allowed : Bytes → Prop} {file file' o : Bytes}
    (h : Grows allowed file file') (ho : o ∈ terminated file) : o ∈ terminated file' :=
  h.induct (P := fun f => o ∈ terminated f) ho fun _ _ hf hw => terminated_put hw hf

/-- A byte offset no segment of the file crosses: a newline stands before it or after it, or it is
an end of the file. -/
def Cut (file : Bytes) (n : Nat) : Prop :=
  n ≤ file.length ∧ (n = 0 ∨ (file.take n).getLast? = some newline ∨ file.drop n = [] ∨
    (file.drop n).head? = some newline)

/-- An offset just after a newline, or the file's start. -/
def LineStart (file : Bytes) (n : Nat) : Prop :=
  n ≤ file.length ∧ (n = 0 ∨ (file.take n).getLast? = some newline)

theorem LineStart.cut {file : Bytes} {n : Nat} (h : LineStart file n) : Cut file n :=
  ⟨h.1, h.2.elim Or.inl fun h => Or.inr (Or.inl h)⟩

theorem LineStart.append {file : Bytes} {n : Nat} (h : LineStart file n) (w : Bytes) :
    LineStart (file ++ w) n := by
  refine ⟨by have := h.1; simp only [List.length_append]; omega, ?_⟩
  rw [List.take_append_of_le_length h.1]
  exact h.2

theorem Cut.end (file : Bytes) : Cut file file.length :=
  ⟨Nat.le_refl _, Or.inr (Or.inr (Or.inl (List.drop_length))) ⟩

theorem Cut.put {allowed : Bytes → Prop} {file w : Bytes} {n : Nat} (h : Cut file n)
    (hw : Puts allowed w) : Cut (file ++ w) n := by
  obtain ⟨hn, hc⟩ := h
  refine ⟨by simp only [List.length_append]; omega, ?_⟩
  rw [List.take_append_of_le_length hn, List.drop_append_of_le_length hn]
  rcases hc with hc | hc | hc | hc
  · exact Or.inl hc
  · exact Or.inr (Or.inl hc)
  · rcases hw.shape with rfl | ⟨x, rfl, _⟩
    · exact Or.inr (Or.inr (Or.inl (by simp [hc])))
    · exact Or.inr (Or.inr (Or.inr (by simp [hc])))
  · exact Or.inr (Or.inr (Or.inr (by simp [List.head?_append, hc])))

theorem Cut.grows {allowed : Bytes → Prop} {file file' : Bytes} {n : Nat} (h : Cut file n)
    (hg : Grows allowed file file') : Cut file' n :=
  hg.induct (P := fun f => Cut f n) h fun _ _ hf hw => hf.put hw

/-- The segments of a nonblank object before and after an uncrossed offset are those of the file. -/
theorem count_cut {file o : Bytes} {n : Nat} (h : Cut file n) (ho : o ≠ []) :
    (segments file).count o =
      (segments (file.take n)).count o + (segments (file.drop n)).count o := by
  have hblank : ([[]] : List Bytes).count o = 0 := List.count_eq_zero.mpr (by simpa using ho)
  have hsplit : file = file.take n ++ file.drop n := (List.take_append_drop n file).symm
  obtain ⟨_, hz | hl | he | hh⟩ := h
  · subst hz
    simp [segments, hblank]
  · obtain ⟨xs, hx⟩ := List.getLast?_eq_some_iff.mp hl
    have hf : file = xs ++ newline :: file.drop n := by
      rw [hx] at hsplit
      simpa using hsplit
    have ht : segments (file.take n) = segments xs ++ [[]] := by
      rw [hx]
      exact segments_append_newline xs []
    rw [congrArg segments hf, segments_append_newline, ht]
    simp [List.count_append, hblank]
  · have hf : file = file.take n := by simpa [he] using hsplit
    rw [he, ← hf]
    simp [segments, hblank]
  · obtain ⟨xs, hx⟩ := List.head?_eq_some_iff.mp hh
    have hd : segments (file.drop n) = [[]] ++ segments xs := by
      rw [hx]
      exact segments_append_newline [] xs
    rw [congrArg segments hsplit, hx, segments_append_newline, ← hx, hd]
    simp only [List.count_append, hblank]
    omega

theorem segments_put {allowed : Bytes → Prop} {file w : Bytes} (h : Puts allowed w) :
    segments file <+: segments (file ++ w) := by
  rcases h.shape with rfl | ⟨x, rfl, _⟩
  · simp
  · rw [segments_append_newline]
    exact List.prefix_append _ _

theorem segments_grows {allowed : Bytes → Prop} {file file' : Bytes}
    (h : Grows allowed file file') : segments file <+: segments file' :=
  h.induct (P := fun f => segments file <+: segments f) (List.prefix_refl _)
    fun _ _ hf hw => hf.trans (segments_put hw)

theorem Grows.drop {allowed : Bytes → Prop} {file file' : Bytes} {n : Nat}
    (h : Grows allowed file file') (hn : n ≤ file.length) :
    Grows allowed (file.drop n) (file'.drop n) := by
  obtain ⟨ws, hw, rfl⟩ := h
  exact ⟨ws, hw, List.drop_append_of_le_length hn⟩

theorem Grows.take {allowed : Bytes → Prop} {file file' : Bytes} {n : Nat}
    (h : Grows allowed file file') (hn : n ≤ file.length) : file'.take n = file.take n := by
  obtain ⟨w, rfl⟩ := h.extends
  exact List.take_append_of_le_length hn

theorem mem_segments_iff_count {file o : Bytes} : o ∈ segments file ↔ (segments file).count o ≠ 0 := by
  rw [← Nat.pos_iff_ne_zero]
  exact List.count_pos_iff.symm

/-- Growth by other objects neither adds nor removes a framed object. -/
theorem mem_segments_grows {allowed : Bytes → Prop} {file file' o : Bytes} (ho : Framed o)
    (hn : ¬ allowed o) (h : Grows allowed file file') : o ∈ segments file' ↔ o ∈ segments file := by
  rw [mem_segments_iff_count, mem_segments_iff_count, count_grows ho hn h]

theorem mem_segments_cut {file o : Bytes} {n : Nat} (h : Cut file n) (ho : o ≠ []) :
    o ∈ segments file ↔ o ∈ segments (file.take n) ∨ o ∈ segments (file.drop n) := by
  rw [mem_segments_iff_count, mem_segments_iff_count, mem_segments_iff_count, count_cut h ho]
  omega

/-- What a newline ends after an uncrossed offset, a newline ends in the file. -/
theorem terminated_cut {file o : Bytes} {n : Nat} (h : Cut file n) (ho : o ≠ [])
    (hm : o ∈ terminated (file.drop n)) : o ∈ terminated file := by
  have hsplit : file = file.take n ++ file.drop n := (List.take_append_drop n file).symm
  obtain ⟨_, hz | hl | he | hh⟩ := h
  · subst hz
    exact hm
  · obtain ⟨xs, hx⟩ := List.getLast?_eq_some_iff.mp hl
    have hf : file = xs ++ newline :: file.drop n := by
      rw [hx] at hsplit
      simpa using hsplit
    rw [hf, terminated_append_newline]
    exact List.mem_append_right _ hm
  · rw [he] at hm
    simp [terminated, segments] at hm
  · obtain ⟨xs, hx⟩ := List.head?_eq_some_iff.mp hh
    have hd : terminated (file.drop n) = [[]] ++ terminated xs := by
      rw [hx]
      exact terminated_append_newline [] xs
    rw [hd, List.mem_append, List.mem_singleton] at hm
    rw [hsplit, hx, terminated_append_newline]
    exact List.mem_append_right _ (hm.resolve_left ho)

theorem terminated_written {file o : Bytes} (ho : Framed o) : o ∈ terminated (file ++ lineOf o) := by
  rw [lineOf, terminated_append_newline, terminated, segments_ended ho.unbroken]
  simp

theorem terminated_newline {file o : Bytes} (h : o ∈ segments file) :
    o ∈ terminated (file ++ [newline]) := by
  rw [terminated_append_newline]
  exact List.mem_append_left _ h

/-- One write of a line adds its object at most once. -/
theorem count_written {file w o : Bytes} (ho : Framed o) (hw : w <+: lineOf o) :
    (segments (file ++ w)).count o ≤ (segments file).count o + 1 := by
  rcases lineOf_prefixes hw with rfl | rfl | ⟨x, rfl, hx⟩
  · simp
  · rw [lineOf, segments_append_newline, segments_ended ho.unbroken, List.count_append]
    have hne : ([] : Bytes) ≠ o := fun h => ho.ne_nil h.symm
    simp [hne]
  · rw [segments_append_newline, segments_prefix_framed ho hx, List.count_append]
    have hle := List.count_le_length (l := [x]) (a := o)
    simp only [List.length_singleton] at hle
    omega

end DistributedMesh
