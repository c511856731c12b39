/-!
# Going through lists

What a search or a traversal of a list comes to whose steps may fail.
-/

namespace Sentential

variable {α ε : Type}

/-- The search through a list whose elements all have a verdict ends with the first that has the
verdict true. -/
theorem findM?_eq_ok_find? {f : α → Except ε Bool} {g : α → Bool} {xs : List α}
    (h : ∀ x ∈ xs, f x = .ok (g x)) : xs.findM? f = .ok (xs.find? g) := by
  induction xs with
  | nil => rfl
  | cons x xs ih =>
    rw [List.findM?, h x List.mem_cons_self, List.find?_cons]
    cases g x with
    | true => rfl
    | false => exact ih fun y hy ↦ h y (List.mem_cons_of_mem x hy)

/-- The search through a list fails with its first element. -/
theorem findM?_eq_error_of_head? {f : α → Except ε Bool} {xs : List α} {x : α} {e : ε}
    (hx : xs.head? = some x) (h : f x = .error e) : xs.findM? f = .error e := by
  obtain ⟨rest, rfl⟩ := List.head?_eq_some_iff.mp hx
  rw [List.findM?, h]
  rfl

/-- The search through a list whose elements either fail in the same way or have the verdict false
fails if one of them fails. -/
theorem findM?_eq_of_same_error {f : α → Except ε Bool} {g : α → Bool} {e : ε} {xs : List α}
    (h : ∀ x ∈ xs, f x = if g x then .error e else .ok false) :
    xs.findM? f = if xs.any g then .error e else .ok none := by
  induction xs with
  | nil => rfl
  | cons x xs ih =>
    rw [List.findM?, h x List.mem_cons_self, List.any_cons]
    cases g x with
    | true => rfl
    | false => exact ih fun y hy ↦ h y (List.mem_cons_of_mem x hy)

variable {β : Type} {f : α → Except ε β} {xs : List α}

/-- What is made of a result fails exactly with the result. -/
theorem return_eq_error_iff {x : Except ε α} {g : α → β} {e : ε} :
    (do return g (← x) : Except ε β) = .error e ↔ x = .error e := by
  cases x <;> simp [bind, Except.bind, pure, Except.pure]

/-- Going through a list gives the results of its elements, if all have one. -/
theorem mapM_eq_ok_iff {ys : List β} : xs.mapM f = .ok ys ↔ xs.map f = ys.map .ok := by
  induction xs generalizing ys with
  | nil => cases ys <;> simp [pure, Except.pure]
  | cons x xs ih =>
    rw [List.mapM_cons, List.map_cons]
    cases hx : f x with
    | error e => cases ys <;> simp [bind, Except.bind]
    | ok y =>
      cases ys with
      | nil => cases hxs : xs.mapM f <;> simp [bind, Except.bind, pure, Except.pure]
      | cons y' ys =>
        rw [List.map_cons, List.cons.injEq, Except.ok.injEq, ← ih]
        cases hxs : xs.mapM f <;> simp [bind, Except.bind, pure, Except.pure]

/-- Going through a list whose elements all have a result gives the results. -/
theorem mapM_eq_ok_map {g : α → β} (h : ∀ x ∈ xs, f x = .ok (g x)) :
    xs.mapM f = .ok (xs.map g) := by
  rw [mapM_eq_ok_iff, List.map_map]
  exact List.map_congr_left h

/-- Going through a list fails with the error of the first element that has one. -/
theorem mapM_eq_error_iff {g : α → Option ε} (h : ∀ x e, f x = .error e ↔ g x = some e) {e : ε} :
    xs.mapM f = .error e ↔ xs.findSome? g = some e := by
  induction xs with
  | nil => exact iff_of_false nofun nofun
  | cons x xs ih =>
    rw [List.mapM_cons, List.findSome?_cons]
    cases hx : f x with
    | error e' =>
      rw [(h x e').mp hx]
      simp [bind, Except.bind]
    | ok y =>
      have hnone : g x = none := Option.eq_none_iff_forall_ne_some.mpr fun e' he ↦ by
        rw [← h, hx] at he
        cases he
      rw [hnone, ← ih]
      cases xs.mapM f <;> simp [bind, Except.bind, pure, Except.pure]

/-- Going through a list fails with its first element. -/
theorem mapM_eq_error_of_head? {x : α} {e : ε} (hx : xs.head? = some x) (h : f x = .error e) :
    xs.mapM f = .error e := by
  obtain ⟨rest, rfl⟩ := List.head?_eq_some_iff.mp hx
  rw [List.mapM_cons, h]
  rfl

end Sentential
