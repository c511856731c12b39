/-!
# Ascending lists

A list that ascends strictly in a comparison holds at most one element of each rank and is
determined by its members. `place` puts an element where its rank belongs; an element of the
same rank gives way to it. Sets and finite maps are kept as such lists.
-/

namespace Sentential

universe u

variable {α : Type u}

/-- Each element comes strictly before all later ones. -/
def Ascending (cmp : α → α → Ordering) (xs : List α) : Prop :=
  xs.Pairwise fun x y ↦ cmp x y = .lt

/-- Ascending is decided by comparing all pairs. -/
instance (cmp : α → α → Ordering) (xs : List α) : Decidable (Ascending cmp xs) :=
  inferInstanceAs (Decidable (xs.Pairwise _))

namespace Ascending

/-- Put an element at its rank; an element of the same rank is replaced. -/
def place (cmp : α → α → Ordering) (x : α) : List α → List α
  | [] => [x]
  | y :: ys =>
    match cmp x y with
    | .lt => x :: y :: ys
    | .eq => x :: ys
    | .gt => y :: place cmp x ys

/-- Place elements one after another, so that of equal ranks the last one stays. -/
def placeAll (cmp : α → α → Ordering) (xs start : List α) : List α :=
  xs.foldl (fun built x ↦ place cmp x built) start

variable {cmp : α → α → Ordering}

/-- The empty list ascends. -/
theorem nil : Ascending cmp [] := List.Pairwise.nil

/-- No element is listed twice. -/
theorem nodup [Std.ReflCmp cmp] {xs : List α} (h : Ascending cmp xs) : xs.Nodup :=
  h.imp fun hlt he ↦ by simp [he, Std.ReflCmp.compare_self] at hlt

/-- Placing brings in no element but the placed one. -/
theorem mem_of_mem_place {x z : α} {ys : List α} (h : z ∈ place cmp x ys) :
    z = x ∨ z ∈ ys := by
  induction ys with
  | nil => simpa [place] using h
  | cons y ys ih =>
    rw [place] at h
    split at h
    · simpa using h
    · rcases List.mem_cons.mp h with rfl | h
      · exact .inl rfl
      · exact .inr (List.mem_cons_of_mem y h)
    · rcases List.mem_cons.mp h with rfl | h
      · exact .inr (List.mem_cons_self ..)
      · exact (ih h).imp_right (List.mem_cons_of_mem y)

/-- What comes before the first element of an ascending list comes before all its elements. -/
theorem lt_of_mem_cons [Std.TransCmp cmp] {x y z : α} {ys : List α} (hxy : cmp x y = .lt)
    (h : Ascending cmp (y :: ys)) (hz : z ∈ y :: ys) : cmp x z = .lt := by
  rcases List.mem_cons.mp hz with rfl | hz
  · exact hxy
  · exact Std.TransCmp.lt_trans hxy ((List.pairwise_cons.mp h).1 z hz)

/-- Placing keeps a list ascending. -/
theorem place_ascending [Std.TransCmp cmp] (x : α) {ys : List α} (h : Ascending cmp ys) :
    Ascending cmp (place cmp x ys) := by
  induction ys with
  | nil => exact List.pairwise_singleton ..
  | cons y ys ih =>
    obtain ⟨hy, hys⟩ := List.pairwise_cons.mp h
    rw [place]
    split
    · rename_i hxy
      exact List.pairwise_cons.mpr ⟨fun z hz ↦ lt_of_mem_cons hxy h hz, h⟩
    · rename_i hxy
      exact List.pairwise_cons.mpr
        ⟨fun z hz ↦ Std.TransCmp.lt_of_eq_of_lt hxy (hy z hz), hys⟩
    · rename_i hxy
      refine List.pairwise_cons.mpr ⟨fun z hz ↦ ?_, ih hys⟩
      rcases mem_of_mem_place hz with rfl | hz
      · exact Std.OrientedCmp.lt_of_gt hxy
      · exact hy z hz

/-- Placing many elements keeps a list ascending. -/
theorem placeAll_ascending [Std.TransCmp cmp] (xs : List α) {start : List α}
    (h : Ascending cmp start) : Ascending cmp (placeAll cmp xs start) := by
  induction xs generalizing start with
  | nil => exact h
  | cons x xs ih => exact ih (place_ascending x h)

/-- After placing, the members are the placed element and those of other ranks. -/
theorem mem_place_iff [Std.TransCmp cmp] {x z : α} {ys : List α} (h : Ascending cmp ys) :
    z ∈ place cmp x ys ↔ z = x ∨ z ∈ ys ∧ cmp x z ≠ .eq := by
  induction ys with
  | nil => simp [place]
  | cons y ys ih =>
    obtain ⟨hy, hys⟩ := List.pairwise_cons.mp h
    have later {o : Ordering} (hxy : cmp x y = o) (ho : o ≠ .gt) (hz : z ∈ ys) :
        cmp x z ≠ .eq := by
      have hlt : cmp x z = .lt := by
        cases o with
        | lt => exact Std.TransCmp.lt_trans hxy (hy z hz)
        | eq => exact Std.TransCmp.lt_of_eq_of_lt hxy (hy z hz)
        | gt => exact absurd rfl ho
      simp [hlt]
    rw [place]
    split
    · rename_i hxy
      have hl := later hxy (by decide)
      simp only [List.mem_cons]
      grind
    · rename_i hxy
      have hl := later hxy (by decide)
      simp only [List.mem_cons]
      grind
    · rename_i hxy
      simp only [List.mem_cons, ih hys]
      grind

/-- Ascending lists with the same members are equal. -/
theorem eq_of_mem_iff [Std.TransCmp cmp] {xs ys : List α} (hx : Ascending cmp xs)
    (hy : Ascending cmp ys) (h : ∀ z, z ∈ xs ↔ z ∈ ys) : xs = ys := by
  have irrefl (z : α) : cmp z z ≠ .lt := by simp [Std.ReflCmp.compare_self]
  have asymm {z w : α} (hzw : cmp z w = .lt) : cmp w z ≠ .lt := by
    simp [Std.OrientedCmp.gt_of_lt hzw]
  induction xs generalizing ys with
  | nil =>
    cases ys with
    | nil => rfl
    | cons y ys => exact absurd ((h y).mpr (List.mem_cons_self ..)) (by simp)
  | cons x xs ih =>
    cases ys with
    | nil => exact absurd ((h x).mp (List.mem_cons_self ..)) (by simp)
    | cons y ys =>
      obtain ⟨hx', hxs⟩ := List.pairwise_cons.mp hx
      obtain ⟨hy', hys⟩ := List.pairwise_cons.mp hy
      have hxy : x = y := by
        rcases List.mem_cons.mp ((h x).mp (List.mem_cons_self ..)) with e | hm
        · exact e
        rcases List.mem_cons.mp ((h y).mpr (List.mem_cons_self ..)) with e | hm'
        · exact e.symm
        · exact absurd (hx' y hm') (asymm (hy' x hm))
      subst hxy
      congr 1
      refine ih hxs hys fun z ↦ ⟨fun hz ↦ ?_, fun hz ↦ ?_⟩
      · rcases List.mem_cons.mp ((h z).mp (List.mem_cons_of_mem _ hz)) with rfl | hm
        · exact absurd (hx' z hz) (irrefl z)
        · exact hm
      · rcases List.mem_cons.mp ((h z).mpr (List.mem_cons_of_mem _ hz)) with rfl | hm
        · exact absurd (hy' z hz) (irrefl z)
        · exact hm

/-- The first element with a property is the least of them. -/
theorem find?_eq_some_iff [Std.TransCmp cmp] {xs : List α} (h : Ascending cmp xs) {p : α → Bool}
    {x : α} :
    xs.find? p = some x ↔ x ∈ xs ∧ p x = true ∧ ∀ y ∈ xs, p y = true → (cmp x y).isLE := by
  induction xs with
  | nil => simp
  | cons y ys ih =>
    obtain ⟨hy, hys⟩ := List.pairwise_cons.mp h
    have hself : (cmp y y).isLE = true := by simp [Std.ReflCmp.compare_self]
    have hlater : ∀ z ∈ ys, (cmp y z).isLE = true := fun z hz ↦ by simp [hy z hz]
    have hearlier : ∀ z ∈ ys, (cmp z y).isLE = false := fun z hz ↦ by
      simp [Std.OrientedCmp.gt_of_lt (hy z hz)]
    rw [List.find?_cons]
    cases hp : p y with
    | true =>
      simp only [Option.some.injEq, List.mem_cons, forall_eq_or_imp]
      constructor
      · rintro rfl
        exact ⟨.inl rfl, hp, fun _ ↦ hself, fun z hz _ ↦ hlater z hz⟩
      · rintro ⟨rfl | hx, -, hle, -⟩
        · rfl
        · have hfalse := hle hp
          rw [hearlier x hx] at hfalse
          cases hfalse
    | false =>
      simp only [ih hys, List.mem_cons, forall_eq_or_imp, hp]
      constructor
      · rintro ⟨hx, hpx, hle⟩
        exact ⟨.inr hx, hpx, fun hf ↦ absurd hf Bool.false_ne_true, hle⟩
      · rintro ⟨rfl | hx, hpx, -, hle⟩
        · rw [hp] at hpx
          cases hpx
        · exact ⟨hx, hpx, hle⟩

end Ascending

end Sentential
