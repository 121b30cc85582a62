import Mathlib

/-!
# Computations that may raise

`Action σ ε α` is imperative code on a state `σ` that returns an `α` or raises an `ε`. What it did
before raising stays done, as with Python's exceptions. `wp` is its weakest precondition, with one
postcondition for a return and one for a raise, and the `simp` lemmas push it through the code.
-/

namespace Bulldog

/-- A sequence of two computations returns exactly when both do. -/
theorem bind_eq_ok {ε α β : Type} {x : Except ε α} {f : α → Except ε β} {b : β} :
    x >>= f = .ok b ↔ ∃ a, x = .ok a ∧ f a = .ok b := by
  cases x <;> simp [bind, Except.bind]

/-- A `for` loop returns exactly when every turn does. -/
theorem forM_eq_ok {α ε : Type} {f : α → Except ε Unit} {l : List α} :
    l.forM f = .ok () ↔ ∀ x ∈ l, f x = .ok () := by
  induction l with
  | nil => exact iff_of_true rfl nofun
  | cons x l ih =>
    change (f x >>= fun _ => l.forM f) = .ok () ↔ _
    rw [List.forall_mem_cons, ← ih]
    rcases f x with e | _
    · exact iff_of_false nofun fun h => nomatch h.1
    · exact (and_iff_right rfl).symm

/-- A list of results, where no turn raises. -/
theorem mapM_eq_ok {α β ε : Type} {f : α → Except ε β} {g : α → β} {l : List α} (h : ∀ x ∈ l, f x = .ok (g x)) :
    l.mapM f = .ok (l.map g) := by
  induction l with
  | nil => rfl
  | cons x l ih =>
    rw [List.mapM_cons, h x List.mem_cons_self, ih fun x hx => h x (List.mem_cons_of_mem _ hx)]
    rfl

/-- `if c: raise e`. -/
def raiseIf {ε : Type} (c : Prop) [Decidable c] (e : ε) : Except ε Unit :=
  if c then .error e else .ok ()

theorem raiseIf_eq_ok {ε : Type} {c : Prop} [Decidable c] {e : ε} {u : Unit} :
    raiseIf c e = .ok u ↔ ¬ c := by
  unfold raiseIf
  split_ifs with h <;> simp [h]

/-- The value, or a raise where there is none. -/
def orRaise {ε α : Type} (x : Option α) (e : ε) : Except ε α :=
  match x with
  | some a => .ok a
  | none => .error e

theorem orRaise_eq_ok {ε α : Type} {x : Option α} {e : ε} {a : α} :
    orRaise x e = .ok a ↔ x = some a := by
  cases x <;> simp [orRaise]

/-- Code on a state `σ` that returns an `α` or raises an `ε`. -/
def Action (σ ε α : Type) : Type := σ → Except ε α × σ

namespace Action

variable {σ ε α β : Type}

instance : Monad (Action σ ε) where
  pure a := fun s => (.ok a, s)
  bind m f := fun s =>
    match m s with
    | (.ok a, s') => f a s'
    | (.error e, s') => (.error e, s')

/-- `raise e`. -/
def raise (e : ε) : Action σ ε α := fun s => (.error e, s)

/-- `try: m` with `except` handing every exception to `h`. -/
def handle (m : Action σ ε α) (h : ε → Action σ ε α) : Action σ ε α := fun s =>
  match m s with
  | (.ok a, s') => (.ok a, s')
  | (.error e, s') => h e s'

/-- The state. -/
def read : Action σ ε σ := fun s => (.ok s, s)

/-- A change of the state. -/
def update (f : σ → σ) : Action σ ε Unit := fun s => (.ok (), f s)

/-- Code that does not touch the state. -/
def ofExcept (x : Except ε α) : Action σ ε α := fun s => (x, s)

instance : MonadLift (Except ε) (Action σ ε) := ⟨ofExcept⟩

/-- Code on a part of the state. -/
def zoom {τ : Type} (get : σ → τ) (set : τ → σ → σ) (m : Action τ ε α) : Action σ ε α := fun s =>
  ((m (get s)).1, set (m (get s)).2 s)

/-- `if c: m`. -/
def onlyIf (c : Prop) [Decidable c] (m : Action σ ε Unit) : Action σ ε Unit :=
  if c then m else pure ()

/-- `try: m` with `finally: f`, whose raise takes the place of what `m` did. -/
def ensuring (m : Action σ ε α) (f : Action σ ε Unit) : Action σ ε α := fun s =>
  match f (m s).2 with
  | (.ok _, s') => ((m s).1, s')
  | (.error e, s') => (.error e, s')

/-- A database transaction: a raise rolls the state back. -/
def transaction (m : Action σ ε α) : Action σ ε α := fun s =>
  match m s with
  | (.ok a, s') => (.ok a, s')
  | (.error e, _) => (.error e, s)

theorem pure_apply (a : α) (s : σ) : (pure a : Action σ ε α) s = (.ok a, s) := rfl

theorem bind_apply (m : Action σ ε α) (f : α → Action σ ε β) (s : σ) :
    (m >>= f) s = match m s with
      | (.ok a, s') => f a s'
      | (.error e, s') => (.error e, s') := rfl

theorem lift_apply (x : Except ε α) (s : σ) : (liftM x : Action σ ε α) s = (x, s) := rfl

theorem read_bind_apply (f : σ → Action σ ε β) (s : σ) : (read >>= f) s = f s s := rfl

/-- Code that only reads can be taken out of the front of an action, check by check. -/
theorem lift_bind_split {γ : Type} {x : Except ε α} {f : α → Action σ ε β} {g : α → Except ε γ}
    {w : γ → Action σ ε β} {s : σ} (h : ∀ a, f a s = (liftM (g a) >>= w : Action σ ε β) s) :
    (liftM x >>= f : Action σ ε β) s = (liftM (x >>= g) >>= w : Action σ ε β) s := by
  rcases x with e | a
  · rfl
  · exact h a

/-- Dropping the result keeps the state. -/
theorem discard_state (m : Action σ ε α) (s : σ) :
    ((m >>= fun _ => pure ()) s).2 = (m s).2 := by
  rw [bind_apply]
  rcases m s with ⟨_ | a, s'⟩ <;> rfl

/-- The weakest precondition of `m` for the postcondition `Q` on return and `E` on a raise. -/
def wp (m : Action σ ε α) (Q : α → σ → Prop) (E : ε → σ → Prop) (s : σ) : Prop :=
  match m s with
  | (.ok a, s') => Q a s'
  | (.error e, s') => E e s'

section Rules

variable {Q Q' : α → σ → Prop} {E E' : ε → σ → Prop} {s : σ}

@[simp] theorem wp_pure (a : α) : wp (pure a : Action σ ε α) Q E s ↔ Q a s := Iff.rfl

@[simp] theorem wp_raise (e : ε) : wp (raise e : Action σ ε α) Q E s ↔ E e s := Iff.rfl

@[simp] theorem wp_read {Q : σ → σ → Prop} : wp (read : Action σ ε σ) Q E s ↔ Q s s := Iff.rfl

@[simp] theorem wp_update {Q : Unit → σ → Prop} (f : σ → σ) :
    wp (update f : Action σ ε Unit) Q E s ↔ Q () (f s) := Iff.rfl

@[simp] theorem wp_bind (m : Action σ ε β) (f : β → Action σ ε α) :
    wp (m >>= f) Q E s ↔ wp m (fun b s' => wp (f b) Q E s') E s := by
  rcases h : m s with ⟨_ | b, s'⟩ <;> simp [wp, bind, h]

@[simp] theorem wp_handle (m : Action σ ε α) (h : ε → Action σ ε α) :
    wp (handle m h) Q E s ↔ wp m Q (fun e s' => wp (h e) Q E s') s := by
  rcases hm : m s with ⟨_ | a, s'⟩ <;> simp [wp, handle, hm]

@[simp] theorem wp_transaction (m : Action σ ε α) :
    wp (transaction m) Q E s ↔ wp m Q (fun e _ => E e s) s := by
  rcases hm : m s with ⟨_ | a, s'⟩ <;> simp [wp, transaction, hm]

@[simp] theorem wp_ensuring (m : Action σ ε α) (f : Action σ ε Unit) :
    wp (ensuring m f) Q E s ↔
      wp m (fun a s' => wp f (fun _ s'' => Q a s'') E s')
        (fun e s' => wp f (fun _ s'' => E e s'') E s') s := by
  rcases hm : m s with ⟨_ | a, s'⟩ <;> rcases hf : f s' with ⟨_ | _, s''⟩ <;>
    simp [wp, ensuring, hm, hf]

@[simp] theorem wp_zoom {τ : Type} (get : σ → τ) (set : τ → σ → σ) (m : Action τ ε α) :
    wp (zoom get set m) Q E s ↔
      wp m (fun a t => Q a (set t s)) (fun e t => E e (set t s)) (get s) := by
  rcases hm : m (get s) with ⟨_ | a, t⟩ <;> simp [wp, zoom, hm]

theorem wp_onlyIf {Q : Unit → σ → Prop} (c : Prop) [Decidable c] (m : Action σ ε Unit) :
    wp (onlyIf c m) Q E s ↔ (c → wp m Q E s) ∧ (¬ c → Q () s) := by
  unfold onlyIf
  split_ifs with h <;> simp [h]

theorem wp_lift (x : Except ε α) :
    wp (liftM x : Action σ ε α) Q E s ↔ (∀ a, x = .ok a → Q a s) ∧ ∀ e, x = .error e → E e s := by
  cases x <;> simp [wp, lift_apply]

/-- Code that does not touch the state, where a raise is always fine. -/
theorem wp_lift_intro {x : Except ε α} (hQ : ∀ a, x = .ok a → Q a s) (hE : ∀ e, E e s) :
    wp (liftM x : Action σ ε α) Q E s := wp_lift x |>.2 ⟨hQ, fun e _ => hE e⟩

/-- Code that is known to return. -/
theorem wp_lift_of_ok {x : Except ε α} {a : α} (hx : x = .ok a) (hQ : Q a s) :
    wp (liftM x : Action σ ε α) Q E s := by
  rw [hx]
  exact hQ

/-- A check that passes. -/
theorem wp_raiseIf_of_not {Q : Unit → σ → Prop} {c : Prop} [Decidable c] {e : ε} (hc : ¬ c)
    (hQ : Q () s) : wp (liftM (raiseIf c e) : Action σ ε Unit) Q E s :=
  wp_lift_of_ok (raiseIf_eq_ok.2 hc) hQ

/-- A postcondition on the state alone. -/
theorem wp_state {m : Action σ ε α} {P : σ → Prop} :
    wp m (fun _ => P) (fun _ => P) s ↔ P (m s).2 := by
  rcases hm : m s with ⟨_ | a, s'⟩ <;> simp [wp, hm]

/-- Postconditions that always hold. -/
theorem wp_of_forall {m : Action σ ε α} (hQ : ∀ a s', Q a s') (hE : ∀ e s', E e s') : wp m Q E s := by
  unfold wp
  split
  · exact hQ _ _
  · exact hE _ _

/-- The postcondition of code that returned. -/
theorem wp_elim {m : Action σ ε α} {a : α} (h : m.wp Q E s) (ha : (m s).1 = .ok a) : Q a (m s).2 := by
  unfold wp at h
  split at h
  · next heq =>
    rw [heq] at ha ⊢
    obtain rfl := Except.ok.inj ha
    exact h
  · next heq =>
    rw [heq] at ha
    cases ha

/-- The rule of consequence. -/
theorem wp_mono {m : Action σ ε α} (h : wp m Q E s) (hQ : ∀ a s', Q a s' → Q' a s')
    (hE : ∀ e s', E e s' → E' e s') : wp m Q' E' s := by
  unfold wp at h ⊢
  split
  · next heq => rw [heq] at h; exact hQ _ _ h
  · next heq => rw [heq] at h; exact hE _ _ h

end Rules

end Action

end Bulldog
