import Woodshed.Sequencing

/-! Rules of pre- and postconditions for `EStateM` programs, with one postcondition for a result and
one for a failure. -/
namespace Sequencing
variable {ε ε' σ τ α β : Type} {P I R : σ → Prop} {Q : α → σ → Prop}

/-- From states with `P` the program ends with `Q`, or fails with `R`. -/
def Triple (P : σ → Prop) (x : EStateM ε σ α) (Q : α → σ → Prop) (R : σ → Prop) : Prop :=
  ∀ s, P s → match x s with
    | .ok a s' => Q a s'
    | .error _ s' => R s'

/-- Whatever comes of the program, `I` stays. -/
def Keeps (I : σ → Prop) (x : EStateM ε σ α) : Prop := Triple I x (fun _ => I) I

theorem Triple.ok {x : EStateM ε σ α} (h : Triple P x Q R) {s s' : σ} {a : α} (hs : P s)
    (hx : x s = .ok a s') : Q a s' := by
  have := h s hs
  rwa [hx] at this

theorem Triple.error {x : EStateM ε σ α} (h : Triple P x Q R) {s s' : σ} {e : ε} (hs : P s)
    (hx : x s = .error e s') : R s' := by
  have := h s hs
  rwa [hx] at this

theorem Triple.weaken {x : EStateM ε σ α} (h : Triple P x Q R) {P' R' : σ → Prop}
    {Q' : α → σ → Prop} (hp : ∀ s, P' s → P s) (hq : ∀ a s, Q a s → Q' a s)
    (hr : ∀ s, R s → R' s) : Triple P' x Q' R' := by
  intro s hs
  cases hx : x s with
  | ok a s' => exact hq a s' (h.ok (hp s hs) hx)
  | error e s' => exact hr s' (h.error (hp s hs) hx)

theorem Triple.bind {x : EStateM ε σ α} {k : α → EStateM ε σ β} {Q' : β → σ → Prop}
    (hx : Triple P x Q R) (hk : ∀ a, Triple (Q a) (k a) Q' R) : Triple P (x >>= k) Q' R := by
  intro s hs
  cases hrun : x s with
  | ok a s' =>
    rw [bind_ok hrun]
    exact hk a s' (hx.ok hs hrun)
  | error e s' =>
    rw [bind_error hrun]
    exact hx.error hs hrun

theorem Triple.ret (a : α) : Triple (Q a) (pure a : EStateM ε σ α) Q R := fun _ hs => hs

theorem Triple.throw (e : ε) : Triple R (throw e : EStateM ε σ α) Q R := fun _ hs => hs

/-- What follows a `get` knows the state it starts from. -/
theorem Triple.get {k : σ → EStateM ε σ α} (h : ∀ s, P s → Triple (· = s) (k s) Q R) :
    Triple P (get >>= k) Q R := by
  intro s hs
  exact h s hs s rfl

theorem Triple.modify {f : σ → σ} {Q : PUnit → σ → Prop} (h : ∀ s, P s → Q ⟨⟩ (f s)) :
    Triple P (modify f : EStateM ε σ PUnit) Q R := fun s hs => h s hs

theorem Keeps.ret (a : α) : Keeps I (pure a : EStateM ε σ α) := fun _ hs => hs

theorem Keeps.throw (e : ε) : Keeps I (throw e : EStateM ε σ α) := fun _ hs => hs

theorem Keeps.bind {x : EStateM ε σ α} {k : α → EStateM ε σ β} (hx : Keeps I x)
    (hk : ∀ a, Keeps I (k a)) : Keeps I (x >>= k) :=
  Triple.bind hx hk

theorem Keeps.get {k : σ → EStateM ε σ α} (h : ∀ s, Keeps I (k s)) : Keeps I (get >>= k) :=
  fun s hs => h s s hs

theorem Keeps.modify {f : σ → σ} (h : ∀ s, I s → I (f s)) :
    Keeps I (modify f : EStateM ε σ PUnit) := fun s hs => h s hs

theorem Keeps.mapM {f : α → EStateM ε σ β} (h : ∀ a, Keeps I (f a)) (xs : List α) :
    Keeps I (xs.mapM f) := by
  induction xs with
  | nil => exact Keeps.ret _
  | cons x xs ih =>
    rw [List.mapM_cons]
    exact (h x).bind fun _ => ih.bind fun _ => Keeps.ret _

theorem Keeps.and {J : σ → Prop} {x : EStateM ε σ α} (hI : Keeps I x) (hJ : Keeps J x) :
    Keeps (fun s => I s ∧ J s) x := by
  rintro s ⟨hi, hj⟩
  cases hx : x s with
  | ok a s' => exact ⟨Triple.ok hI hi hx, Triple.ok hJ hj hx⟩
  | error e s' => exact ⟨Triple.error hI hi hx, Triple.error hJ hj hx⟩

theorem Triple.of_eq {x : EStateM ε σ α} {s : σ} (h : Triple P x Q R) (hs : P s) :
    Triple (· = s) x Q R := by
  rintro _ rfl
  exact h _ hs

/-- A failure that is handed over as a value. -/
theorem Keeps.attempt {x : EStateM ε σ α} (h : Keeps I x) :
    Keeps I (attempt x : EStateM ε' σ (Except ε α)) := by
  intro s hs
  cases hx : x s with
  | ok a s' =>
    rw [attempt_ok hx]
    exact Triple.ok h hs hx
  | error e s' =>
    rw [attempt_error hx]
    exact Triple.error h hs hx

/-- A program on a part of a larger state. -/
theorem Triple.onPart {view : τ → σ} {put : σ → τ → τ} {err : ε → ε'} {x : EStateM ε σ α}
    {P' R' : τ → Prop} {Q' : α → τ → Prop}
    (h : ∀ t, P' t → Triple (· = view t) x (fun a s => Q' a (put s t)) (fun s => R' (put s t))) :
    Triple P' (Sequencing.onPart view put err x) Q' R' := by
  intro t ht
  cases hx : x (view t) with
  | ok a s' =>
    rw [onPart_ok hx]
    exact (h t ht).ok rfl hx
  | error e s' =>
    rw [onPart_error hx]
    exact (h t ht).error rfl hx

/-! ### Failures of a kind -/

/-- From states with `P` the program ends with `Q`, or fails with `R` and an error of the kind `E`. -/
def Within (E : ε → Prop) (P : σ → Prop) (x : EStateM ε σ α) (Q : α → σ → Prop) (R : σ → Prop) :
    Prop :=
  ∀ s, P s → match x s with
    | .ok a s' => Q a s'
    | .error e s' => E e ∧ R s'

section
variable {E : ε → Prop}

theorem Within.ok {x : EStateM ε σ α} (h : Within E P x Q R) {s s' : σ} {a : α} (hs : P s)
    (hx : x s = .ok a s') : Q a s' := by
  have := h s hs
  rwa [hx] at this

theorem Within.error {x : EStateM ε σ α} (h : Within E P x Q R) {s s' : σ} {e : ε} (hs : P s)
    (hx : x s = .error e s') : E e ∧ R s' := by
  have := h s hs
  rwa [hx] at this

theorem Within.weaken {x : EStateM ε σ α} (h : Within E P x Q R) {P' R' : σ → Prop}
    {Q' : α → σ → Prop} (hp : ∀ s, P' s → P s) (hq : ∀ a s, Q a s → Q' a s)
    (hr : ∀ s, R s → R' s) : Within E P' x Q' R' := by
  intro s hs
  cases hx : x s with
  | ok a s' => exact hq a s' (h.ok (hp s hs) hx)
  | error e s' =>
    obtain ⟨he, hfail⟩ := h.error (hp s hs) hx
    exact ⟨he, hr s' hfail⟩

theorem Within.bind {x : EStateM ε σ α} {k : α → EStateM ε σ β} {Q' : β → σ → Prop}
    (hx : Within E P x Q R) (hk : ∀ a, Within E (Q a) (k a) Q' R) : Within E P (x >>= k) Q' R := by
  intro s hs
  cases hrun : x s with
  | ok a s' =>
    rw [bind_ok hrun]
    exact hk a s' (hx.ok hs hrun)
  | error e s' =>
    rw [bind_error hrun]
    exact hx.error hs hrun

theorem Within.ret {a : α} (h : ∀ s, P s → Q a s) : Within E P (pure a : EStateM ε σ α) Q R := h

theorem Within.throw {e : ε} (he : E e) : Within E R (throw e : EStateM ε σ α) Q R :=
  fun _ hs => ⟨he, hs⟩

theorem Within.read {k : σ → EStateM ε σ α} (h : ∀ s, Within E P (k s) Q R) :
    Within E P (get >>= k) Q R := fun s hs => h s s hs

/-- What follows a `get` knows the state it starts from. -/
theorem Within.get {k : σ → EStateM ε σ α} (h : ∀ s, P s → Within E (· = s) (k s) Q R) :
    Within E P (get >>= k) Q R := by
  intro s hs
  exact h s hs s rfl

theorem Within.modify {f : σ → σ} {Q : PUnit → σ → Prop} (h : ∀ s, P s → Q ⟨⟩ (f s)) :
    Within E P (modify f : EStateM ε σ PUnit) Q R := fun s hs => h s hs

/-- A program on a part of a larger state, all of whose failures become errors of the kind. -/
theorem Within.onPart {view : τ → σ} {put : σ → τ → τ} {err : ε' → ε} {x : EStateM ε' σ α}
    {I : τ → Prop} {E : ε → Prop} (hput : ∀ s t, I t → I (put s t)) (herr : ∀ e, E (err e)) :
    Within E I (Sequencing.onPart view put err x) (fun _ => I) I := by
  intro t ht
  cases hx : x (view t) with
  | ok a s' =>
    rw [onPart_ok hx]
    exact hput s' t ht
  | error e s' =>
    rw [onPart_error hx]
    exact ⟨herr e, hput s' t ht⟩

end

/-! ### Programs on a calmer state -/

section
variable {calm : σ → σ}

/-- What the program returns, it returns as well from the state that `calm` makes of the one it is
given. -/
def Withstands (calm : σ → σ) (x : EStateM ε σ α) : Prop :=
  ∀ s a s', x s = .ok a s' → x (calm s) = .ok a (calm s')

theorem Withstands.ret (a : α) : Withstands calm (pure a : EStateM ε σ α) := by
  intro s b s' h
  cases h
  rfl

theorem Withstands.throw (e : ε) : Withstands calm (throw e : EStateM ε σ α) := by
  intro s a s' h
  cases h

theorem Withstands.bind {x : EStateM ε σ α} {k : α → EStateM ε σ β} (hx : Withstands calm x)
    (hk : ∀ a, Withstands calm (k a)) : Withstands calm (x >>= k) := by
  intro s b s' h
  obtain ⟨a, t, hrun, hrest⟩ := bind_eq_ok h
  rw [bind_ok (hx s a t hrun)]
  exact hk a t b s' hrest

/-- What follows a `get` may look at what `calm` leaves as it is. -/
theorem Withstands.get {k : σ → EStateM ε σ α} (hk : ∀ s, k (calm s) = k s)
    (h : ∀ s, Withstands calm (k s)) : Withstands calm (get >>= k) := by
  intro s a s' hrun
  rw [get_bind] at hrun ⊢
  rw [hk]
  exact h s s a s' hrun

theorem Withstands.modify {f : σ → σ} (h : ∀ s, f (calm s) = calm (f s)) :
    Withstands calm (modify f : EStateM ε σ PUnit) := by
  intro s a s' hrun
  rw [modify_apply] at hrun ⊢
  cases hrun
  rw [h]

theorem Withstands.onPart {view : τ → σ} {put : σ → τ → τ} {err : ε → ε'} {calmer : τ → τ}
    {x : EStateM ε σ α} (h : Withstands calm x) (hview : ∀ t, view (calmer t) = calm (view t))
    (hput : ∀ s t, put (calm s) (calmer t) = calmer (put s t)) :
    Withstands calmer (onPart view put err x) := by
  intro t a t' hrun
  cases hx : x (view t) with
  | error e s' =>
    rw [onPart_error hx] at hrun
    cases hrun
  | ok b s' =>
    rw [onPart_ok hx] at hrun
    cases hrun
    have hcalm : x (view (calmer t)) = .ok a (calm s') := by
      rw [hview]
      exact h _ _ _ hx
    rw [onPart_ok hcalm, hput]

/-- From the states in `I` the program ends as it does from what `calm` makes of them, and where it
does not fail it stays in `I`. -/
def Mirrors (I : σ → Prop) (calm : σ → σ) (x : EStateM ε σ α) : Prop :=
  ∀ s, I s → match x s with
    | .ok a s' => I s' ∧ x (calm s) = .ok a (calm s')
    | .error e _ => ∃ t, x (calm s) = .error e t

theorem Mirrors.ok {x : EStateM ε σ α} (h : Mirrors I calm x) {s s' : σ} {a : α} (hs : I s)
    (hx : x s = .ok a s') : I s' ∧ x (calm s) = .ok a (calm s') := by
  have := h s hs
  rwa [hx] at this

theorem Mirrors.error {x : EStateM ε σ α} (h : Mirrors I calm x) {s s' : σ} {e : ε} (hs : I s)
    (hx : x s = .error e s') : ∃ t, x (calm s) = .error e t := by
  have := h s hs
  rwa [hx] at this

theorem Mirrors.ret (a : α) : Mirrors I calm (pure a : EStateM ε σ α) := fun _ hs => ⟨hs, rfl⟩

theorem Mirrors.throw (e : ε) : Mirrors I calm (throw e : EStateM ε σ α) := fun s _ => ⟨calm s, rfl⟩

theorem Mirrors.bind {x : EStateM ε σ α} {k : α → EStateM ε σ β} (hx : Mirrors I calm x)
    (hk : ∀ a, Mirrors I calm (k a)) : Mirrors I calm (x >>= k) := by
  intro s hs
  cases hrun : x s with
  | ok a s' =>
    obtain ⟨hs', hcalm⟩ := hx.ok hs hrun
    rw [bind_ok hrun, bind_ok hcalm]
    exact hk a s' hs'
  | error e s' =>
    obtain ⟨t, hcalm⟩ := hx.error hs hrun
    rw [bind_error hrun]
    exact ⟨t, bind_error hcalm⟩

/-- What follows a `get` may look at what `calm` leaves as it is. -/
theorem Mirrors.get {k : σ → EStateM ε σ α} (hk : ∀ s, k (calm s) = k s)
    (h : ∀ s, Mirrors I calm (k s)) : Mirrors I calm (get >>= k) := by
  intro s hs
  rw [get_bind, get_bind, hk]
  exact h s s hs

theorem Mirrors.modify {f : σ → σ} (hI : ∀ s, I s → I (f s)) (h : ∀ s, f (calm s) = calm (f s)) :
    Mirrors I calm (modify f : EStateM ε σ PUnit) := by
  intro s hs
  rw [modify_apply, modify_apply, h]
  exact ⟨hI s hs, rfl⟩

theorem Mirrors.onPart {view : τ → σ} {put : σ → τ → τ} {err : ε → ε'} {J : τ → Prop}
    {calmer : τ → τ} {x : EStateM ε σ α} (h : Mirrors I calm x) (hI : ∀ t, J t → I (view t))
    (hJ : ∀ s t, I s → J t → J (put s t)) (hview : ∀ t, view (calmer t) = calm (view t))
    (hput : ∀ s t, put (calm s) (calmer t) = calmer (put s t)) :
    Mirrors J calmer (onPart view put err x) := by
  intro t ht
  cases hx : x (view t) with
  | ok a s' =>
    obtain ⟨hs', hcalm⟩ := h.ok (hI t ht) hx
    rw [← hview] at hcalm
    rw [onPart_ok hx, onPart_ok hcalm, hput]
    exact ⟨hJ s' t hs' ht, rfl⟩
  | error e s' =>
    obtain ⟨u, hcalm⟩ := h.error (hI t ht) hx
    rw [← hview] at hcalm
    rw [onPart_error hx]
    exact ⟨_, onPart_error hcalm⟩

end
end Sequencing
