set_option autoImplicit false

/-!
# Outcomes of computations in two parts

A computation in two parts succeeds where both parts do, and it fails where one of them
does.  These are the facts that take such a computation apart, for computations that may
fail and for those that carry a state as well, and the ways to say what the states left by
such a computation have in common, and when two computations come out alike.
-/

namespace Skein

namespace Outcome

variable {ε σ α β : Type}

/-! ## Without a state -/

/-- What may fail and succeeds in two parts does so part by part. -/
theorem of_bind_eq_ok {x : Except ε α} {f : α → Except ε β} {b : β}
    (h : x >>= f = .ok b) : ∃ a, x = .ok a ∧ f a = .ok b := by
  cases x with
  | ok a => exact ⟨a, rfl, h⟩
  | error e => cases h

/-- Whether something that may fail gives a certain result can be decided. -/
instance decidableEqOk [DecidableEq α] (x : Except ε α) (a : α) : Decidable (x = .ok a) :=
  Except.casesOn x (fun _ => .isFalse (by intro h; cases h)) fun b =>
    decidable_of_iff (b = a) ⟨congrArg Except.ok, Except.ok.inj⟩

/-- Whether it fails for a certain reason can be decided as well. -/
instance decidableEqError [DecidableEq ε] (x : Except ε α) (e : ε) : Decidable (x = .error e) :=
  Except.casesOn x
    (fun other => decidable_of_iff (other = e) ⟨congrArg Except.error, Except.error.inj⟩)
    fun _ => .isFalse (by intro h; cases h)

/-- Two computations agree in a view of what they give, if they do at first and go on so. -/
theorem map_bind_congr {γ δ : Type} {x y : Except ε α} {f g : α → Except ε β}
    {view : α → γ} {view' : β → δ} (hxy : x.map view = y.map view)
    (hfg : ∀ a b, x = .ok a → y = .ok b → view a = view b → (f a).map view' = (g b).map view') :
    (x >>= f).map view' = (y >>= g).map view' := by
  cases x with
  | error fault =>
      cases y with
      | error other => exact congrArg Except.error (Except.error.inj hxy)
      | ok b => cases hxy
  | ok a =>
      cases y with
      | error other => cases hxy
      | ok b => exact hfg a b rfl rfl (Except.ok.inj hxy)

/-! ## With a state -/

theorem run_of_eq_ok {x : EStateM ε σ α} {f : α → EStateM ε σ β} {s t : σ} {a : α}
    (h : x s = .ok a t) : (x >>= f) s = f a t := by
  show EStateM.bind x f s = f a t
  unfold EStateM.bind
  rw [h]

theorem run_of_eq_error {x : EStateM ε σ α} {f : α → EStateM ε σ β} {s t : σ} {e : ε}
    (h : x s = .error e t) : (x >>= f) s = .error e t := by
  show EStateM.bind x f s = .error e t
  unfold EStateM.bind
  rw [h]

/-- A computation that starts with a look at the state. -/
theorem run_get (f : σ → EStateM ε σ β) (s : σ) : (get >>= f) s = f s s := rfl

/-- A computation in two parts that succeeds does so part by part. -/
theorem of_run_eq_ok {x : EStateM ε σ α} {f : α → EStateM ε σ β} {s u : σ} {b : β}
    (h : (x >>= f) s = .ok b u) : ∃ a t, x s = .ok a t ∧ f a t = .ok b u := by
  change EStateM.bind x f s = .ok b u at h
  unfold EStateM.bind at h
  cases hx : x s with
  | ok a t =>
      rw [hx] at h
      exact ⟨a, t, rfl, h⟩
  | error e t =>
      rw [hx] at h
      cases h

/-- From one state, only the outcome of the first part matters for the whole. -/
theorem bind_congr_left {x y : EStateM ε σ α} {s : σ} (hxy : x s = y s)
    (f : α → EStateM ε σ β) : (x >>= f) s = (y >>= f) s := by
  show EStateM.bind x f s = EStateM.bind y f s
  unfold EStateM.bind
  rw [hxy]

/-- What holds of the state that is left, with an answer or with a failure. -/
def Ensures (good : α → σ → Prop) (bad : ε → σ → Prop) : EStateM.Result ε σ α → Prop
  | .ok a t => good a t
  | .error e t => bad e t

theorem Ensures.mono {good good' : α → σ → Prop} {bad bad' : ε → σ → Prop}
    {result : EStateM.Result ε σ α} (h : Ensures good bad result)
    (hgood : ∀ a t, good a t → good' a t) (hbad : ∀ e t, bad e t → bad' e t) :
    Ensures good' bad' result := by
  cases result with
  | ok a t => exact hgood a t h
  | error e t => exact hbad e t h

theorem Ensures.and {good good' : α → σ → Prop} {bad bad' : ε → σ → Prop}
    {result : EStateM.Result ε σ α} (h : Ensures good bad result)
    (h' : Ensures good' bad' result) :
    Ensures (fun a t => good a t ∧ good' a t) (fun e t => bad e t ∧ bad' e t) result := by
  cases result with
  | ok a t => exact ⟨h, h'⟩
  | error e t => exact ⟨h, h'⟩

/-- A computation in two parts ensures what the second part ensures wherever the first one
comes out. -/
theorem Ensures.bind {good : β → σ → Prop} {bad : ε → σ → Prop} {x : EStateM ε σ α}
    {f : α → EStateM ε σ β} {s : σ}
    (h : Ensures (fun a t => Ensures good bad (f a t)) bad (x s)) :
    Ensures good bad ((x >>= f) s) := by
  show Ensures good bad (EStateM.bind x f s)
  unfold EStateM.bind
  cases hx : x s with
  | ok a t =>
      rw [hx] at h
      exact h
  | error e t =>
      rw [hx] at h
      exact h

/-- From one state, two computations in two parts are the same if their first parts are, and
their second parts wherever the first comes out. -/
theorem Ensures.bind_congr {good : α → σ → Prop} {bad : ε → σ → Prop} {x y : EStateM ε σ α}
    {f g : α → EStateM ε σ β} {s : σ} (h : Ensures good bad (y s)) (hxy : x s = y s)
    (hfg : ∀ a t, good a t → f a t = g a t) : (x >>= f) s = (y >>= g) s := by
  show EStateM.bind x f s = EStateM.bind y g s
  unfold EStateM.bind
  rw [hxy]
  cases hy : y s with
  | ok a t =>
      rw [hy] at h
      exact hfg a t h
  | error e t => rfl

theorem ensures_get {good : β → σ → Prop} {bad : ε → σ → Prop} {f : σ → EStateM ε σ β} {s : σ}
    (h : Ensures good bad ((f s).run s)) : Ensures good bad ((get >>= f) s) := h

/-! ## Two outcomes -/

/-- Both outcomes are answers, and the same one, or both are failures, for the same reason. -/
def Alike (good : α → σ → σ → Prop) (bad : ε → σ → σ → Prop) :
    EStateM.Result ε σ α → EStateM.Result ε σ α → Prop
  | .ok a s, .ok b t => a = b ∧ good a s t
  | .error e s, .error f t => e = f ∧ bad e s t
  | _, _ => False

theorem Alike.mono {good good' : α → σ → σ → Prop} {bad bad' : ε → σ → σ → Prop}
    {first second : EStateM.Result ε σ α} (h : Alike good bad first second)
    (hgood : ∀ a s t, good a s t → good' a s t) (hbad : ∀ e s t, bad e s t → bad' e s t) :
    Alike good' bad' first second := by
  cases first with
  | ok a s =>
      cases second with
      | ok b t => exact ⟨h.1, hgood a s t h.2⟩
      | error f t => exact h
  | error e s =>
      cases second with
      | ok b t => exact h
      | error f t => exact ⟨h.1, hbad e s t h.2⟩

/-- Two computations in two parts come out alike if their first parts do and their second parts
go on alike. -/
theorem Alike.bind {good : β → σ → σ → Prop} {bad : ε → σ → σ → Prop} {x y : EStateM ε σ α}
    {f g : α → EStateM ε σ β} {s t : σ}
    (h : Alike (fun a s t => Alike good bad (f a s) (g a t)) bad (x s) (y t)) :
    Alike good bad ((x >>= f) s) ((y >>= g) t) := by
  show Alike good bad (EStateM.bind x f s) (EStateM.bind y g t)
  unfold EStateM.bind
  cases hx : x s with
  | ok a s' =>
      cases hy : y t with
      | ok b t' =>
          rw [hx, hy] at h
          obtain ⟨rfl, h⟩ := h
          exact h
      | error f t' =>
          rw [hx, hy] at h
          exact h.elim
  | error e s' =>
      cases hy : y t with
      | ok b t' =>
          rw [hx, hy] at h
          exact h.elim
      | error f t' =>
          rw [hx, hy] at h
          exact h

/-- What is known of the first outcome alone may be added. -/
theorem Alike.and_ensures {good : α → σ → σ → Prop} {bad : ε → σ → σ → Prop}
    {left : α → σ → Prop} {wrong : ε → σ → Prop} {first second : EStateM.Result ε σ α}
    (h : Alike good bad first second) (hleft : Ensures left wrong first) :
    Alike (fun a s t => left a s ∧ good a s t) bad first second := by
  cases first with
  | ok a s =>
      cases second with
      | ok b t => exact ⟨h.1, hleft, h.2⟩
      | error f t => exact h
  | error e s =>
      cases second with
      | ok b t => exact h
      | error f t => exact h

end Outcome

end Skein
