import Mathlib.Data.List.Basic
import Mathlib.Logic.Function.Basic
import Mathlib.Tactic.Common

namespace LexCode

open Std

/-- A self-delimiting code: what a value's code begins, no other value's code does. -/
structure Code (α : Type) where
  encode : α → List Nat
  exact_ : ∀ {a b r s}, encode a ++ r = encode b ++ s → a = b ∧ r = s

variable {α β : Type}

theorem Code.injective (c : Code α) : Function.Injective c.encode := by
  intro a b h
  exact (c.exact_ (r := []) (s := []) (by simpa using h)).1

/-- Codes compare as lists do, so the fields of a record compare one after another. -/
def Code.cmp (c : Code α) : α → α → Ordering := compareOn c.encode

instance (c : Code α) : TransCmp c.cmp := inferInstanceAs (TransCmp (compareOn c.encode))

instance (c : Code α) : LawfulEqCmp c.cmp where
  eq_of_compare h := c.injective (LawfulEqCmp.eq_of_compare h)

def natCode : Code Nat where
  encode n := [n]
  exact_ h := by simpa using h

def charsEncode (cs : List Char) : List Nat := cs.map (fun c => c.toNat + 1) ++ [0]

theorem charsEncode_exact {cs ds : List Char} {r s : List Nat}
    (h : charsEncode cs ++ r = charsEncode ds ++ s) : cs = ds ∧ r = s := by
  induction cs generalizing ds with
  | nil =>
    cases ds with
    | nil => simpa [charsEncode] using h
    | cons d ds => simp [charsEncode] at h
  | cons c cs ih =>
    cases ds with
    | nil => simp [charsEncode] at h
    | cons d ds =>
      simp only [charsEncode, List.map_cons, List.cons_append, List.cons.injEq] at h
      obtain ⟨hcd, h⟩ := h
      have hc : c = d := by
        rw [← Char.ofNat_toNat c, ← Char.ofNat_toNat d, Nat.add_right_cancel hcd]
      obtain ⟨rfl, hr⟩ := ih h
      exact ⟨by rw [hc], hr⟩

def stringCode : Code String where
  encode s := charsEncode s.toList
  exact_ h := by
    obtain ⟨hs, hr⟩ := charsEncode_exact h
    exact ⟨String.toList_inj.mp hs, hr⟩

def optionCode (c : Code α) : Code (Option α) where
  encode
    | none => [0]
    | some a => 1 :: c.encode a
  exact_ {a b r s} h := by
    cases a with
    | none =>
      cases b with
      | none => simpa using h
      | some b => simp at h
    | some a =>
      cases b with
      | none => simp at h
      | some b =>
        simp only [List.cons_append, List.cons.injEq, true_and] at h
        obtain ⟨rfl, hr⟩ := c.exact_ h
        exact ⟨rfl, hr⟩

def pairCode (c : Code α) (d : Code β) : Code (α × β) where
  encode p := c.encode p.1 ++ d.encode p.2
  exact_ {a b r s} h := by
    simp only [List.append_assoc] at h
    obtain ⟨h1, h⟩ := c.exact_ h
    obtain ⟨h2, h⟩ := d.exact_ h
    exact ⟨Prod.ext h1 h2, h⟩

def listEncode (c : Code α) (l : List α) : List Nat := l.flatMap (fun a => 1 :: c.encode a) ++ [0]

theorem listEncode_exact (c : Code α) {l k : List α} {r s : List Nat} (h : listEncode c l ++ r = listEncode c k ++ s) :
    l = k ∧ r = s := by
  induction l generalizing k with
  | nil =>
    cases k with
    | nil => simpa [listEncode] using h
    | cons b k => simp [listEncode] at h
  | cons a l ih =>
    cases k with
    | nil => simp [listEncode] at h
    | cons b k =>
      simp only [listEncode, List.flatMap_cons, List.cons_append, List.append_assoc, List.cons.injEq, true_and] at h
      obtain ⟨rfl, hrest⟩ := c.exact_ h
      obtain ⟨rfl, hr⟩ := @ih k (by simpa [listEncode] using hrest)
      exact ⟨rfl, hr⟩

/-- Every item is announced, and the end of the list with them. -/
def listCode (c : Code α) : Code (List α) where
  encode := listEncode c
  exact_ := listEncode_exact c

/-- A record takes the code of the fields it is told apart by. -/
def Code.comap (c : Code β) (f : α → β) (hf : Function.Injective f) : Code α where
  encode a := c.encode (f a)
  exact_ h := by
    obtain ⟨hf', hr⟩ := c.exact_ h
    exact ⟨hf hf', hr⟩

end LexCode
