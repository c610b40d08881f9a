import Mathlib

/-! Sequencing rules for `EStateM` programs: a program applied to a state either succeeds or
fails, and each rule rewrites one step of a sequence by what its first part does. -/
namespace Sequencing
variable {ε ε' σ τ α β : Type}

theorem bind_ok {m : EStateM ε σ α} {k : α → EStateM ε σ β} {s s' : σ} {a : α}
    (h : m s = .ok a s') : (m >>= k) s = k a s' := by
  change EStateM.bind m k s = _
  simp only [EStateM.bind, h]

theorem bind_error {m : EStateM ε σ α} {k : α → EStateM ε σ β} {s s' : σ} {e : ε}
    (h : m s = .error e s') : (m >>= k) s = .error e s' := by
  change EStateM.bind m k s = _
  simp only [EStateM.bind, h]

/-- A sequence that succeeds splits at its first part. -/
theorem bind_eq_ok {m : EStateM ε σ α} {k : α → EStateM ε σ β} {s s' : σ} {b : β}
    (h : (m >>= k) s = .ok b s') : ∃ a t, m s = .ok a t ∧ k a t = .ok b s' := by
  cases hm : m s with
  | ok a t => exact ⟨a, t, rfl, by rwa [bind_ok hm] at h⟩
  | error e t => rw [bind_error hm] at h; cases h

theorem bind_eq_error {m : EStateM ε σ α} {k : α → EStateM ε σ β} {s s' : σ} {e : ε}
    (h : (m >>= k) s = .error e s') :
    m s = .error e s' ∨ ∃ a t, m s = .ok a t ∧ k a t = .error e s' := by
  cases hm : m s with
  | ok a t => exact Or.inr ⟨a, t, rfl, by rwa [bind_ok hm] at h⟩
  | error e' t =>
    rw [bind_error hm] at h
    cases h
    exact Or.inl rfl

@[simp] theorem pure_apply (a : α) (s : σ) : (pure a : EStateM ε σ α) s = .ok a s := rfl

@[simp] theorem get_bind (k : σ → EStateM ε σ β) (s : σ) : (get >>= k) s = k s s := rfl

@[simp] theorem modify_bind (f : σ → σ) (k : PUnit → EStateM ε σ β) (s : σ) :
    (modify f >>= k) s = k ⟨⟩ (f s) := rfl

@[simp] theorem modify_apply (f : σ → σ) (s : σ) :
    (modify f : EStateM ε σ PUnit) s = .ok ⟨⟩ (f s) := rfl

@[simp] theorem pure_bind_apply (a : α) (k : α → EStateM ε σ β) (s : σ) :
    (pure a >>= k) s = k a s := rfl

@[simp] theorem throw_bind (e : ε) (k : α → EStateM ε σ β) (s : σ) :
    (throw e >>= k) s = .error e s := rfl

@[simp] theorem throw_apply (e : ε) (s : σ) :
    (throw e : EStateM ε σ α) s = .error e s := rfl

/-- Run a program and hand its failure over as a value. -/
def attempt (m : EStateM ε σ α) : EStateM ε' σ (Except ε α) := fun s =>
  match m s with
  | .ok a s' => .ok (.ok a) s'
  | .error e s' => .ok (.error e) s'

theorem attempt_ok {m : EStateM ε σ α} {s s' : σ} {a : α} (h : m s = .ok a s') :
    (attempt m : EStateM ε' σ _) s = .ok (.ok a) s' := by
  simp only [attempt, h]

theorem attempt_error {m : EStateM ε σ α} {s s' : σ} {e : ε} (h : m s = .error e s') :
    (attempt m : EStateM ε' σ _) s = .ok (.error e) s' := by
  simp only [attempt, h]

/-- Run a program on a part of a larger state, translating its failure. -/
def onPart (view : τ → σ) (put : σ → τ → τ) (err : ε → ε') (m : EStateM ε σ α) :
    EStateM ε' τ α := fun t =>
  match m (view t) with
  | .ok a s' => .ok a (put s' t)
  | .error e s' => .error (err e) (put s' t)

theorem onPart_ok {view : τ → σ} {put : σ → τ → τ} {err : ε → ε'} {m : EStateM ε σ α}
    {t : τ} {s' : σ} {a : α} (h : m (view t) = .ok a s') :
    onPart view put err m t = .ok a (put s' t) := by
  simp only [onPart, h]

theorem onPart_error {view : τ → σ} {put : σ → τ → τ} {err : ε → ε'} {m : EStateM ε σ α}
    {t : τ} {s' : σ} {e : ε} (h : m (view t) = .error e s') :
    onPart view put err m t = .error (err e) (put s' t) := by
  simp only [onPart, h]

/-- The value of a program that succeeded. -/
def returned : EStateM.Result ε σ α → Option α
  | .ok a _ => some a
  | .error _ _ => none

/-- Whether a run returned a value. -/
def succeeds : EStateM.Result ε σ α → Bool
  | .ok _ _ => true
  | .error _ _ => false

theorem exists_of_succeeds {r : EStateM.Result ε σ α} (h : succeeds r = true) :
    ∃ a s, r = .ok a s := by
  cases r with
  | ok a s => exact ⟨a, s, rfl⟩
  | error e s => cases h

/-- A loop over a list whose rounds succeed without changing the state. -/
theorem mapM_ok (f : α → EStateM ε σ β) (g : α → β) (s : σ) (xs : List α)
    (h : ∀ x ∈ xs, f x s = .ok (g x) s) : xs.mapM f s = .ok (xs.map g) s := by
  induction xs with
  | nil => rfl
  | cons x xs ih =>
    rw [List.mapM_cons, bind_ok (h x (by simp)), bind_ok (ih (fun y hy => h y (by simp [hy])))]
    rfl

theorem forM_cons (f : α → EStateM ε σ PUnit) (x : α) (xs : List α) :
    forM (x :: xs) f = f x >>= fun _ => forM xs f := List.forM_cons

end Sequencing
