import Mathlib

/-!
# Runs of labelled machines

A machine is a partial step function `f : σ → α → Except ε σ`: `.error` is a step that cannot be taken (a
goroutine that waits, a process that crashed). `Run f ok s₀ as s` says that the labels `as` from `s₀` end
in `s`, and that each of them met the guard `ok` in the state before it.
-/

namespace Mp2bs.Lib.Machine

variable {σ α ε : Type}

inductive Run (f : σ → α → Except ε σ) (ok : σ → α → Prop) (s₀ : σ) : List α → σ → Prop
  | nil : Run f ok s₀ [] s₀
  | snoc {as : List α} {s s' : σ} {a : α} :
      Run f ok s₀ as s → ok s a → f s a = .ok s' → Run f ok s₀ (as ++ [a]) s'

def always : σ → α → Prop := fun _ _ => True

variable {f : σ → α → Except ε σ} {ok : σ → α → Prop} {s₀ : σ}

variable {as : List α} {s s₁ : σ}

/-- What holds at the start and is kept by every guarded step holds after every run. -/
theorem Run.invariant (I : σ → Prop) (h0 : I s₀) (hstep : ∀ s a s', I s → ok s a → f s a = .ok s' → I s')
    (h : Run f ok s₀ as s) : I s := by
  induction h with
  | nil => exact h0
  | snoc _ hok hs ih => exact hstep _ _ _ ih hok hs

theorem Run.mono {ok' : σ → α → Prop} (himp : ∀ s a, ok s a → ok' s a) (h : Run f ok s₀ as s) :
    Run f ok' s₀ as s := by
  induction h with
  | nil => exact .nil
  | snoc _ hok hs ih => exact .snoc ih (himp _ _ hok) hs

theorem Run.cons {a : α} (hok : ok s₀ a) (ha : f s₀ a = .ok s₁) (h : Run f ok s₁ as s) :
    Run f ok s₀ (a :: as) s := by
  induction h with
  | nil => exact .snoc .nil hok ha
  | snoc _ hok' hs ih => exact .snoc ih hok' hs

theorem Run.append {bs : List α} (h : Run f ok s₀ as s₁) (h' : Run f ok s₁ bs s) : Run f ok s₀ (as ++ bs) s := by
  induction h' with
  | nil => rwa [List.append_nil]
  | snoc _ hok hs ih =>
    rw [← List.append_assoc]
    exact .snoc ih hok hs

def exec (f : σ → α → Except ε σ) : σ → List α → Except ε σ
  | s, [] => .ok s
  | s, a :: as => match f s a with
    | .error e => .error e
    | .ok s' => exec f s' as

theorem exec_append (f : σ → α → Except ε σ) {s₀ : σ} (h : exec f s₀ as = .ok s) (bs : List α) :
    exec f s₀ (as ++ bs) = exec f s bs := by
  induction as generalizing s₀ with
  | nil =>
    simp only [exec, Except.ok.injEq] at h
    rw [h, List.nil_append]
  | cons a as ih =>
    simp only [exec] at h
    simp only [exec, List.cons_append]
    cases hf : f s₀ a with
    | error e => simp [hf] at h
    | ok s₁ =>
      rw [hf] at h
      exact ih h

def Guarded (f : σ → α → Except ε σ) (ok : σ → α → Prop) : σ → List α → Prop
  | _, [] => True
  | s, a :: as => ok s a ∧ match f s a with
    | .error _ => True
    | .ok s' => Guarded f ok s' as

instance Guarded.decidable [∀ s a, Decidable (ok s a)] :
    ∀ (as : List α) (s : σ), Decidable (Guarded f ok s as)
  | [], _ => .isTrue trivial
  | a :: as, s =>
    have : Decidable (match f s a with
        | .error _ => True
        | .ok s' => Guarded f ok s' as) :=
      match f s a with
      | .error _ => .isTrue trivial
      | .ok s' => Guarded.decidable as s'
    inferInstanceAs (Decidable (ok s a ∧ _))

theorem Run.of_exec (as : List α) (hg : Guarded f ok s₀ as) (h : exec f s₀ as = .ok s) : Run f ok s₀ as s := by
  induction as generalizing s₀ with
  | nil =>
    simp only [exec, Except.ok.injEq] at h
    subst h
    exact .nil
  | cons a as ih =>
    simp only [exec] at h
    simp only [Guarded] at hg
    cases hf : f s₀ a with
    | error e => simp [hf] at h
    | ok s₁ =>
      simp only [hf] at h hg
      exact .cons hg.1 hf (ih hg.2 h)

/-- A run that ends in a state with a decidable property, from one evaluation. -/
theorem Run.exists_of_exec (f : σ → α → Except ε σ) (s₀ : σ) (as : List α) (P : σ → Bool) (hg : Guarded f ok s₀ as)
    (h : (match exec f s₀ as with
      | .error _ => false
      | .ok s => P s) = true) : ∃ s, Run f ok s₀ as s ∧ P s = true := by
  cases he : exec f s₀ as with
  | error e => simp [he] at h
  | ok s =>
    rw [he] at h
    exact ⟨s, .of_exec as hg he, h⟩

theorem Guarded.always (as : List α) : Guarded f Machine.always s₀ as := by
  induction as generalizing s₀ with
  | nil => trivial
  | cons a as ih =>
    refine ⟨trivial, ?_⟩
    cases f s₀ a with
    | error e => trivial
    | ok s₁ => exact ih

theorem Guarded.and_label {P : α → Prop} (hP : ∀ a ∈ as, P a) (h : Guarded f ok s₀ as) :
    Guarded f (fun s a => P a ∧ ok s a) s₀ as := by
  induction as generalizing s₀ with
  | nil => trivial
  | cons a as ih =>
    refine ⟨⟨hP a (List.mem_cons_self ..), h.1⟩, ?_⟩
    have hrest := h.2
    cases hf : f s₀ a with
    | error e => trivial
    | ok s₁ =>
      rw [hf] at hrest
      exact ih (fun b hb => hP b (List.mem_cons_of_mem _ hb)) hrest

end Mp2bs.Lib.Machine
