import Mathlib.Data.List.Basic
import Mathlib.Tactic.Common

namespace DistributedMesh.Chunking

/-- The frame limit of a gossip message. -/
def gossipFrameLimit : Nat := 4096

/-- The largest message payload. -/
def maxMessageBytes : Nat := gossipFrameLimit - 64

variable {T B E : Type}

/-- A run's length, doubled while it fits: the length known not to fit, and the last that did. -/
def double (encode : List T → Except E B) (rest : List T) (n excess : Nat) (fit : Nat × B)
    (hn : 0 < n) : Nat × Nat × B :=
  if n < excess then
    match encode (rest.take n) with
    | .ok b => double encode rest (n * 2) excess (n, b) (by omega)
    | .error _ => (n, fit)
  else (excess, fit)
termination_by excess - n

def halve (encode : List T → Except E B) (rest : List T) (excess : Nat) (fit : Nat × B) : Nat × B :=
  if 1 < excess - fit.1 then
    match encode (rest.take (fit.1 + (excess - fit.1) / 2)) with
    | .ok b => halve encode rest excess (fit.1 + (excess - fit.1) / 2, b)
    | .error _ => halve encode rest (fit.1 + (excess - fit.1) / 2) fit
  else fit
termination_by excess - fit.1

/-- The run found by doubling and halving from its first item's encoding. -/
def longest (encode : List T → Except E B) (rest : List T) (b : B) : Nat × B :=
  let doubled := double encode rest 2 rest.length (1, b) (by omega)
  halve encode rest doubled.1 doubled.2

/-- A length that was measured to fit, with the bytes measured. -/
def Fits (encode : List T → Except E B) (rest : List T) (fit : Nat × B) : Prop :=
  0 < fit.1 ∧ encode (rest.take fit.1) = .ok fit.2

theorem double_fits {encode : List T → Except E B} {rest : List T} {n excess : Nat} {fit : Nat × B}
    (hn : 0 < n) (h : Fits encode rest fit) : Fits encode rest (double encode rest n excess fit hn).2 := by
  fun_induction double encode rest n excess fit hn with
  | case1 n fit hn _ b he ih => exact ih ⟨hn, he⟩
  | case2 => exact h
  | case3 => exact h

theorem halve_fits {encode : List T → Except E B} {rest : List T} {excess : Nat} {fit : Nat × B}
    (h : Fits encode rest fit) : Fits encode rest (halve encode rest excess fit) := by
  fun_induction halve encode rest excess fit with
  | case1 excess fit hlt b he ih =>
    refine ih ⟨?_, he⟩
    have hpos := h.1
    simp only
    omega
  | case2 excess fit hlt e he ih => exact ih h
  | case3 => exact h

theorem longest_fits {encode : List T → Except E B} {rest : List T} {b : B}
    (h : encode (rest.take 1) = .ok b) : Fits encode rest (longest encode rest b) :=
  halve_fits (double_fits (by omega) ⟨Nat.one_pos, h⟩)

/-- `items` packed, in order, into runs whose encoding fits one message. An item that fits none on
its own is left out and its refusal returned. -/
def packInOrder (encode : List T → Except E B) : List T → List (List T × B) × List E
  | [] => ([], [])
  | item :: more =>
    match encode (item :: more) with
    | .ok b => ([(item :: more, b)], [])
    | .error _ =>
      match _h : encode ((item :: more).take 1) with
      | .error e =>
        let packed := packInOrder encode more
        (packed.1, e :: packed.2)
      | .ok b =>
        let fit := longest encode (item :: more) b
        let packed := packInOrder encode ((item :: more).drop fit.1)
        (((item :: more).take fit.1, fit.2) :: packed.1, packed.2)
termination_by items => items.length
decreasing_by
  · simp
  · have hpos : 0 < (longest encode (item :: more) b).1 := (longest_fits _h).1
    rw [List.length_drop, List.length_cons]
    omega

theorem packInOrder_fits {encode : List T → Except E B} {items run : List T} {b : B}
    (h : (run, b) ∈ (packInOrder encode items).1) : encode run = .ok b ∧ run ≠ [] := by
  fun_induction packInOrder encode items with
  | case1 => simp at h
  | case2 item more b' he =>
    cases List.mem_singleton.mp h
    exact ⟨he, by simp⟩
  | case3 item more e he e' he' packed ih => exact ih h
  | case4 item more e he b' he' fit packed ih =>
    obtain ⟨hpos, hfit⟩ := longest_fits he'
    rcases List.mem_cons.mp h with heq | h
    · cases heq
      refine ⟨hfit, ?_⟩
      rw [List.take_cons hpos]
      simp
    · exact ih h

/-- Packing that refuses nothing leaves nothing out. -/
theorem packInOrder_flatten {encode : List T → Except E B} {items : List T}
    (h : (packInOrder encode items).2 = []) :
    ((packInOrder encode items).1.map Prod.fst).flatten = items := by
  fun_induction packInOrder encode items with
  | case1 => rfl
  | case2 item more b he => simp
  | case3 item more e he e' he' packed ih => simp at h
  | case4 item more e he b' he' fit packed ih =>
    rw [List.map_cons, List.flatten_cons, ih h, List.take_append_drop]

/-- An item is refused only for its own encoding. -/
theorem packInOrder_refused {encode : List T → Except E B} {items : List T}
    (h : ∀ item ∈ items, ∃ b, encode [item] = .ok b) : (packInOrder encode items).2 = [] := by
  fun_induction packInOrder encode items with
  | case1 => rfl
  | case2 => rfl
  | case3 item more e he e' he' packed ih =>
    obtain ⟨b, hb⟩ := h item List.mem_cons_self
    rw [show (item :: more).take 1 = [item] from rfl, hb] at he'
    simp at he'
  | case4 item more e he b' he' fit packed ih =>
    exact ih fun x hx => h x (List.mem_of_mem_drop hx)

theorem packInOrder_length (encode : List T → Except E B) (items : List T) :
    (packInOrder encode items).1.length ≤ items.length := by
  fun_induction packInOrder encode items with
  | case1 => simp
  | case2 => simp
  | case3 item more e he e' he' packed ih => exact Nat.le_succ_of_le ih
  | case4 item more e he b' he' fit packed ih =>
    have hpos : 0 < fit.1 := (longest_fits he').1
    have hrest : packed.1.length ≤ more.length + 1 - fit.1 := by
      rw [List.length_drop, List.length_cons] at ih
      exact ih
    rw [List.length_cons, List.length_cons]
    omega

end DistributedMesh.Chunking
