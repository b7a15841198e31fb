import Mathlib.Logic.Basic

namespace Interleaving

/-- A program ends with an answer, or performs one operation and goes on with its result. -/
inductive Program (Op : Type) (Res : Op → Type) (α : Type) where
  | ret (a : α) : Program Op Res α
  | act (op : Op) (next : Res op → Program Op Res α) : Program Op Res α

namespace Program

variable {Op Fault α β σ : Type} {Res : Op → Type}

def bind : Program Op Res α → (α → Program Op Res β) → Program Op Res β
  | ret a, f => f a
  | act op next, f => act op fun r => (next r).bind f

/-- One operation, answering its result. -/
def perform (op : Op) : Program Op Res (Res op) := act op ret

instance : Monad (Program Op Res) where
  pure := ret
  bind := bind

@[simp] theorem pure_eq (a : α) : (pure a : Program Op Res α) = ret a := rfl

theorem bind_eq (prog : Program Op Res α) (f : α → Program Op Res β) : prog >>= f = prog.bind f := rfl

end Program

/-- What a program relies on and guarantees: the moves the environment makes between its
operations, the moves its own operations make, the faults its operations may meet, and whether
an operation may wait. -/
structure Contract (Fault σ : Type) where
  rely : σ → σ → Prop
  guar : σ → σ → Prop
  fault : Fault → Prop
  waits : Prop
  rely_refl : ∀ s, rely s s
  rely_trans : ∀ {s t u}, rely s t → rely t u → rely s u

section Safety

variable {Op Fault α β σ : Type} {Res : Op → Type}
variable (step : (op : Op) → Fault → σ → Option (Res op × σ))

/-- From `s`, whatever the environment does between the operations and whatever fault each meets,
every operation of the program keeps the guarantee and its answer meets `post`. -/
def Program.Safe (c : Contract Fault σ) : Program Op Res α → (α → σ → Prop) → σ → Prop
  | .ret a, post, s => ∀ s', c.rely s s' → post a s'
  | .act op next, post, s => ∀ s', c.rely s s' → ∀ f, c.fault f →
      match step op f s' with
      | none => c.waits
      | some (r, t) => c.guar s' t ∧ (next r).Safe c post t

variable {step} {c : Contract Fault σ} {post : α → σ → Prop} {s s' : σ}

theorem Program.Safe.stable {prog : Program Op Res α} (h : prog.Safe step c post s)
    (hs : c.rely s s') : prog.Safe step c post s' := by
  cases prog with
  | ret a => exact fun t ht => h t (c.rely_trans hs ht)
  | act op next => exact fun t ht => h t (c.rely_trans hs ht)

theorem Program.Safe.mono {prog : Program Op Res α} {post' : α → σ → Prop}
    (h : prog.Safe step c post s) (hp : ∀ a t, post a t → post' a t) :
    prog.Safe step c post' s := by
  induction prog generalizing s with
  | ret a => exact fun t ht => hp a t (h t ht)
  | act op next ih =>
    intro t ht f hf
    have hstep := h t ht f hf
    cases he : step op f t with
    | none => simpa only [he] using hstep
    | some out =>
      simp only [he] at hstep ⊢
      exact ⟨hstep.1, ih out.1 hstep.2⟩

/-- A sequenced program is safe when its first part reaches states its second part is safe from. -/
theorem Program.Safe.bind {prog : Program Op Res α} {f : α → Program Op Res β}
    {post : β → σ → Prop}
    (h : prog.Safe step c (fun a t => (f a).Safe step c post t) s) :
    (prog >>= f).Safe step c post s := by
  induction prog generalizing s with
  | ret a => exact h s (c.rely_refl s)
  | act op next ih =>
    intro t ht f hf
    have hstep := h t ht f hf
    cases he : step op f t with
    | none => simpa only [he] using hstep
    | some out =>
      simp only [he] at hstep ⊢
      exact ⟨hstep.1, ih out.1 hstep.2⟩

/-- A program safe under `c` is safe under `c'` and keeps `inv`, when under `inv` every move `c'`
relies on is one of `c`, every move `c` guarantees is one of `c'`, and both keep `inv`. -/
theorem Program.Safe.frame {prog : Program Op Res α} (h : prog.Safe step c post s)
    (c' : Contract Fault σ) (inv : σ → Prop)
    (hr : ∀ s t, inv s → c'.rely s t → c.rely s t ∧ inv t)
    (hg : ∀ s t, inv s → c.guar s t → c'.guar s t ∧ inv t)
    (hf : ∀ f, c'.fault f → c.fault f) (hw : c.waits → c'.waits) (hi : inv s) :
    prog.Safe step c' (fun a t => post a t ∧ inv t) s := by
  induction prog generalizing s with
  | ret a =>
    intro t ht
    obtain ⟨ht, hi⟩ := hr s t hi ht
    exact ⟨h t ht, hi⟩
  | act op next ih =>
    intro t ht f hft
    obtain ⟨ht, hi⟩ := hr s t hi ht
    have hstep := h t ht f (hf f hft)
    cases he : step op f t with
    | none =>
      simp only [he] at hstep
      exact hw hstep
    | some out =>
      simp only [he] at hstep ⊢
      obtain ⟨hgt, hi⟩ := hg t out.2 hi hstep.1
      exact ⟨hgt, ih out.1 hstep.2 hi⟩

end Safety

section Runs

variable {Op Fault α σ : Type} {Res : Op → Type}

/-- The run of a program in which the environment does `env n` before operation `n` and that
operation meets `faults n`; `none` when an operation waits. -/
def Program.run (step : (op : Op) → Fault → σ → Option (Res op × σ)) (env : Nat → σ → σ)
    (faults : Nat → Fault) : Program Op Res α → Nat → σ → Option (α × σ)
  | .ret a, _, s => some (a, s)
  | .act op next, n, s =>
    match step op (faults n) (env n s) with
    | none => none
    | some (r, t) => (next r).run step env faults (n + 1) t

/-- A safe program that may not wait returns under every schedule, and its answer meets `post`. -/
theorem Program.Safe.run {step : (op : Op) → Fault → σ → Option (Res op × σ)}
    {c : Contract Fault σ} {post : α → σ → Prop} {prog : Program Op Res α} {s : σ}
    (h : prog.Safe step c post s) (hw : ¬ c.waits) (env : Nat → σ → σ) (faults : Nat → Fault)
    (henv : ∀ n s, c.rely s (env n s)) (hf : ∀ n, c.fault (faults n)) (n : Nat) :
    ∃ a t, prog.run step env faults n s = some (a, t) ∧ post a t := by
  induction prog generalizing n s with
  | ret a => exact ⟨a, s, rfl, h s (c.rely_refl s)⟩
  | act op next ih =>
    have hstep := h (env n s) (henv n s) (faults n) (hf n)
    cases he : step op (faults n) (env n s) with
    | none =>
      simp only [he] at hstep
      exact absurd hstep hw
    | some out =>
      simp only [he] at hstep
      obtain ⟨a, t, hr, hp⟩ := ih out.1 hstep.2 (n + 1)
      exact ⟨a, t, by simpa only [Program.run, he] using hr, hp⟩

end Runs

end Interleaving
