import Mathlib.Control.Monad.Basic

/-!
# Computations that change a state and may fail

The state survives a failure: a computation takes a state to a result or an error, and to a state.

* `exec`: the result of a computation and the state after it;
* `exec_bind`, `exec_bind_eq_ok`, `exec_bind_eq_error`: one computation after another;
* `Keeps`: a relation between the states before and after, whatever the result;
* `Fails`: what holds after a failure;
* `Respects`: related states lead to the same result and to related states;
* `Gives`, `Ensures`: what holds of a result, also with an invariant of the state;
* `Refuses`: what holds of an error.
-/

namespace Gradual.Effect

variable {ε σ α β : Type} {x : ExceptT ε (StateM σ) α} {f : α → ExceptT ε (StateM σ) β}

/-! ## Results and states -/

/-- The result of a computation and the state after it. -/
def exec (x : ExceptT ε (StateM σ) α) (s : σ) : Except ε α × σ := x.run s

theorem exec_bind (x : ExceptT ε (StateM σ) α) (f : α → ExceptT ε (StateM σ) β) (s : σ) :
    exec (x >>= f) s = match exec x s with
      | (.ok a, t) => exec (f a) t
      | (.error e, t) => (.error e, t) := by
  rw [exec, ExceptT.run_bind]
  change (match exec x s with
    | (r, t) => (match r with
      | .ok a => (f a).run
      | .error e => pure (.error e) : StateM σ (Except ε β)) t) = _
  rcases exec x s with ⟨_ | _, _⟩ <;> rfl

theorem exec_bind_of_ok {s t : σ} {a : α} (h : exec x s = (.ok a, t)) :
    exec (x >>= f) s = exec (f a) t := by
  rw [exec_bind, h]

theorem exec_bind_of_error {s t : σ} {e : ε} (h : exec x s = (.error e, t)) :
    exec (x >>= f) s = (.error e, t) := by
  rw [exec_bind, h]

theorem exec_bind_eq_ok {s u : σ} {b : β} :
    exec (x >>= f) s = (.ok b, u) ↔
      ∃ a t, exec x s = (.ok a, t) ∧ exec (f a) t = (.ok b, u) := by
  rcases h : exec x s with ⟨e | a, t⟩
  · rw [exec_bind_of_error h]
    simp
  · rw [exec_bind_of_ok h]
    simp [and_assoc]

theorem result_bind_eq_ok {s : σ} {b : β} :
    (exec (x >>= f) s).1 = .ok b ↔
      ∃ a, (exec x s).1 = .ok a ∧ (exec (f a) (exec x s).2).1 = .ok b := by
  rcases h : exec x s with ⟨e | a, t⟩
  · rw [exec_bind_of_error h]
    simp
  · rw [exec_bind_of_ok h]
    simp

theorem exec_bind_eq_error {s u : σ} {e : ε} :
    exec (x >>= f) s = (.error e, u) ↔
      exec x s = (.error e, u) ∨ ∃ a t, exec x s = (.ok a, t) ∧ exec (f a) t = (.error e, u) := by
  rcases h : exec x s with ⟨d | a, t⟩
  · rw [exec_bind_of_error h]
    simp
  · rw [exec_bind_of_ok h]
    simp [and_assoc]

@[simp]
theorem exec_pure (a : α) (s : σ) : exec (pure a : ExceptT ε (StateM σ) α) s = (.ok a, s) := rfl

@[simp]
theorem exec_throw (e : ε) (s : σ) : exec (throw e : ExceptT ε (StateM σ) α) s = (.error e, s) :=
  rfl

@[simp]
theorem exec_liftExcept (r : Except ε α) (s : σ) :
    exec (liftExcept r : ExceptT ε (StateM σ) α) s = (r, s) := by
  cases r <;> rfl

@[simp]
theorem exec_get (s : σ) : exec (get : ExceptT ε (StateM σ) σ) s = (.ok s, s) := rfl

theorem exec_tryCatch (x : ExceptT ε (StateM σ) α) (h : ε → ExceptT ε (StateM σ) α) (s : σ) :
    exec (tryCatch x h) s = match exec x s with
      | (.ok a, t) => (.ok a, t)
      | (.error e, t) => exec (h e) t := by
  change (match exec x s with
    | (r, t) => (match r with
      | .ok a => pure (.ok a)
      | .error e => (h e).run : StateM σ (Except ε α)) t) = _
  rcases exec x s with ⟨_ | _, _⟩ <;> rfl

/-! ## Before and after -/

/-- The states before and after are related by `R`, whatever the result. -/
def Keeps (R : σ → σ → Prop) (x : ExceptT ε (StateM σ) α) : Prop := ∀ s, R s (exec x s).2

/-- After a failure, `P` holds of the state before, the error and the state after. -/
def Fails (P : σ → ε → σ → Prop) (x : ExceptT ε (StateM σ) α) : Prop :=
  ∀ s e t, exec x s = (.error e, t) → P s e t

section Keeps

variable {R : σ → σ → Prop}

theorem Keeps.mono {S : σ → σ → Prop} (h : Keeps R x) (hRS : ∀ s t, R s t → S s t) : Keeps S x :=
  fun s => hRS s _ (h s)

theorem Keeps.of_exec {s t : σ} {r : Except ε α} (h : Keeps R x) (hr : exec x s = (r, t)) :
    R s t := by
  have hs := h s
  rw [hr] at hs
  exact hs

variable [Std.Refl R]

theorem keeps_pure (a : α) : Keeps R (pure a : ExceptT ε (StateM σ) α) :=
  fun s => Std.Refl.refl s

theorem keeps_throw (e : ε) : Keeps R (throw e : ExceptT ε (StateM σ) α) :=
  fun s => Std.Refl.refl s

omit [Std.Refl R] in
/-- A computation that keeps `R`, and one after it that keeps `S`. -/
theorem keeps_seq {S T : σ → σ → Prop} (hstop : ∀ s t, R s t → T s t)
    (hgo : ∀ s t u, R s t → S t u → T s u) (hx : Keeps R x) (hf : ∀ a, Keeps S (f a)) :
    Keeps T (x >>= f) := by
  intro s
  have hs := hx s
  rcases h : exec x s with ⟨e | a, t⟩
  · rw [h] at hs
    rw [exec_bind_of_error h]
    exact hstop s t hs
  · rw [h] at hs
    rw [exec_bind_of_ok h]
    exact hgo s t _ hs (hf a t)

omit [Std.Refl R] in
theorem keeps_bind [Trans R R R] (hx : Keeps R x) (hf : ∀ a, Keeps R (f a)) :
    Keeps R (x >>= f) :=
  keeps_seq (fun _ _ h => h) (fun _ _ _ h k => Trans.trans h k) hx hf

theorem keeps_forM [Trans R R R] {g : α → ExceptT ε (StateM σ) PUnit} (l : List α)
    (hg : ∀ a ∈ l, Keeps R (g a)) : Keeps R (l.forM g) := by
  induction l with
  | nil => exact keeps_pure PUnit.unit
  | cons a l ih =>
    rw [List.forM_eq_forM, List.forM_cons]
    exact keeps_bind (hg a List.mem_cons_self) fun _ =>
      ih fun b hb => hg b (List.mem_cons_of_mem a hb)

end Keeps

/-! ## Failure -/

section Fails

variable {P : σ → ε → σ → Prop}

theorem fails_pure (a : α) : Fails P (pure a : ExceptT ε (StateM σ) α) := by
  intro s e t h
  cases h

/-- A computation that starts without a change of what `P` sees of the state. -/
theorem fails_bind {R : σ → σ → Prop} (hR : ∀ s t u e, R s t → P t e u → P s e u)
    (hx : Fails P x) (hk : Keeps R x) (hf : ∀ a, Fails P (f a)) : Fails P (x >>= f) := by
  intro s e u h
  rcases exec_bind_eq_error.1 h with h | ⟨a, t, hx', hf'⟩
  · exact hx s e u h
  · exact hR s t u e (hk.of_exec hx') (hf a t e u hf')

end Fails

/-! ## Two runs -/

/-- States related by `r` lead to the same result and to related states. -/
def Respects (r : σ → σ → Prop) (x : ExceptT ε (StateM σ) α) : Prop :=
  ∀ s t, r s t → (exec x s).1 = (exec x t).1 ∧ r (exec x s).2 (exec x t).2

section Respects

variable {r : σ → σ → Prop}

theorem respects_pure (a : α) : Respects r (pure a : ExceptT ε (StateM σ) α) :=
  fun _ _ h => ⟨rfl, h⟩

theorem respects_throw (e : ε) : Respects r (throw e : ExceptT ε (StateM σ) α) :=
  fun _ _ h => ⟨rfl, h⟩

theorem respects_bind (hx : Respects r x) (hf : ∀ a, Respects r (f a)) : Respects r (x >>= f) := by
  intro s t hst
  obtain ⟨hres, hrel⟩ := hx s t hst
  rcases hs : exec x s with ⟨e | a, s'⟩ <;> rcases ht : exec x t with ⟨d | b, t'⟩ <;>
    rw [hs, ht] at hres hrel <;> cases hres
  · rw [exec_bind_of_error hs, exec_bind_of_error ht]
    exact ⟨rfl, hrel⟩
  · rw [exec_bind_of_ok hs, exec_bind_of_ok ht]
    exact hf a s' t' hrel

end Respects

/-! ## Invariants -/

section Gives

variable {P : α → Prop} {Q : β → Prop}

/-- `P` holds of the result, if there is one. -/
def Gives (P : α → Prop) (r : Except ε α) : Prop := ∀ a, r = .ok a → P a

theorem gives_ok {a : α} (h : P a) : Gives P (.ok a : Except ε α) := by
  intro b hb
  cases hb
  exact h

theorem gives_error (e : ε) : Gives P (.error e : Except ε α) := nofun

theorem gives_any (r : Except ε α) : Gives (fun _ => True) r := fun _ _ => trivial

theorem gives_bind {r : Except ε α} {f : α → Except ε β} (hr : Gives P r)
    (hf : ∀ a, P a → Gives Q (f a)) : Gives Q (r >>= f) := by
  cases r with
  | error e => exact gives_error e
  | ok a => exact hf a (hr a rfl)

end Gives

section Refuses

variable {P Q : ε → Prop}

theorem except_bind_eq_ok {r : Except ε α} {f : α → Except ε β} {b : β} :
    (r >>= f) = .ok b ↔ ∃ a, r = .ok a ∧ f a = .ok b := by
  cases r <;> simp [bind, Except.bind]

/-- `P` holds of the error, if there is one. -/
def Refuses (P : ε → Prop) (r : Except ε α) : Prop := ∀ e, r = .error e → P e

theorem Refuses.mono {r : Except ε α} (h : Refuses P r) (hpq : ∀ e, P e → Q e) : Refuses Q r :=
  fun e he => hpq e (h e he)

theorem refuses_ok (a : α) : Refuses P (.ok a : Except ε α) := by
  intro e he
  cases he

theorem refuses_error {e : ε} (h : P e) : Refuses P (.error e : Except ε α) := by
  intro d hd
  cases hd
  exact h

theorem refuses_bind {r : Except ε α} {f : α → Except ε β} (hr : Refuses P r)
    (hf : ∀ a, Refuses P (f a)) : Refuses P (r >>= f) := by
  cases r with
  | ok a => exact hf a
  | error e => exact refuses_error (hr e rfl)

theorem refuses_foldlM {f : β → α → Except ε β} (hf : ∀ b a, Refuses P (f b a)) (l : List α)
    (b : β) : Refuses P (l.foldlM f b) := by
  induction l generalizing b with
  | nil => exact refuses_ok b
  | cons a l ih =>
    rw [List.foldlM_cons]
    exact refuses_bind (hf b a) ih

end Refuses

section Ensures

variable {I : σ → Prop} {P : α → Prop} {Q : β → Prop}

/-- The invariant `I` of the state is kept, and then `P` holds of the result, if there is one. -/
def Ensures (I : σ → Prop) (P : α → Prop) (x : ExceptT ε (StateM σ) α) : Prop :=
  ∀ s, I s → I (exec x s).2 ∧ Gives P (exec x s).1

theorem ensures_pure {a : α} (h : P a) : Ensures I P (pure a : ExceptT ε (StateM σ) α) :=
  fun _ hs => ⟨hs, gives_ok h⟩

theorem ensures_throw (e : ε) : Ensures I P (throw e : ExceptT ε (StateM σ) α) :=
  fun _ hs => ⟨hs, gives_error e⟩

theorem ensures_liftExcept {r : Except ε α} (h : Gives P r) :
    Ensures I P (liftExcept r : ExceptT ε (StateM σ) α) := by
  intro s hs
  rw [exec_liftExcept]
  exact ⟨hs, h⟩

theorem ensures_bind (hx : Ensures I P x) (hf : ∀ a, P a → Ensures I Q (f a)) :
    Ensures I Q (x >>= f) := by
  intro s hs
  obtain ⟨hkept, hgives⟩ := hx s hs
  rcases h : exec x s with ⟨e | a, t⟩
  · rw [h] at hkept
    rw [exec_bind_of_error h]
    exact ⟨hkept, gives_error e⟩
  · rw [h] at hkept hgives
    rw [exec_bind_of_ok h]
    exact hf a (hgives a rfl) t hkept

theorem Ensures.of_exec {s t : σ} {r : Except ε α} (h : Ensures I P x) (hr : exec x s = (r, t))
    (hs : I s) : I t ∧ Gives P r := by
  have hx := h s hs
  rw [hr] at hx
  exact hx

end Ensures

end Gradual.Effect
