import Sentential.Text.Brackets

/-!
# Texts with separators

Items that are written one after the other with a separator between them can be told apart in two
ways: when the text of an item shows where it ends, or when the lengths of the items are known.
-/

namespace Sentential

variable {α : Type}

/-- All items but the first have the separator before them. -/
theorem intercalate_cons (separator first : List α) (later : List (List α)) :
    separator.intercalate (first :: later) = first ++ later.flatMap (separator ++ ·) := by
  induction later generalizing first with
  | nil => simp
  | cons second later ih =>
    rw [List.intercalate_cons_cons, ih, List.flatMap_cons, List.append_assoc, List.append_assoc]

/-- Everything in separated items is in an item or in the separator. -/
theorem mem_of_mem_intercalate {separator : List α} {items : List (List α)} {c : α}
    (h : c ∈ separator.intercalate items) : c ∈ separator ∨ ∃ item ∈ items, c ∈ item := by
  cases items with
  | nil => cases h
  | cons first later =>
    rw [intercalate_cons, List.mem_append, List.mem_flatMap] at h
    rcases h with h | ⟨item, hm, h⟩
    · exact .inr ⟨first, List.mem_cons_self, h⟩
    · rcases List.mem_append.mp h with h | h
      · exact .inl h
      · exact .inr ⟨item, List.mem_cons_of_mem _ hm, h⟩

/-- Items of known lengths are found by their places. -/
theorem intercalate_inj_of_length {separator : List α} {items items' : List (List α)}
    {after after' : List α} (hlength : items.map List.length = items'.map List.length)
    (h : separator.intercalate items ++ after = separator.intercalate items' ++ after') :
    items = items' ∧ after = after' := by
  induction items generalizing items' with
  | nil =>
    obtain rfl : items' = [] := List.map_eq_nil_iff.mp hlength.symm
    exact ⟨rfl, h⟩
  | cons first later ih =>
    cases items' with
    | nil => cases hlength
    | cons first' later' =>
      obtain ⟨hfirst, hlater⟩ := List.cons.inj hlength
      cases later with
      | nil =>
        obtain rfl : later' = [] := List.map_eq_nil_iff.mp hlater.symm
        rw [List.intercalate_singleton, List.intercalate_singleton] at h
        obtain ⟨rfl, rfl⟩ := List.append_inj h hfirst
        exact ⟨rfl, rfl⟩
      | cons second later =>
        cases later' with
        | nil => cases hlater
        | cons second' later' =>
          rw [List.intercalate_cons_cons, List.intercalate_cons_cons, List.append_assoc,
            List.append_assoc, List.append_assoc, List.append_assoc] at h
          obtain ⟨rfl, hrest⟩ := List.append_inj h hfirst
          obtain ⟨he, hafter⟩ := ih hlater (List.append_cancel_left hrest)
          exact ⟨by rw [he], hafter⟩

/-- What comes after an item of a list between braces: the next item or the end of the list. -/
def EndsItem (after : List Char) : Prop := ∀ c ∈ after.head?, c = ',' ∨ c = '}'

/-- The text of an item shows where it ends. -/
def IsReadableItem (f : α → List Char) (item : α) : Prop :=
  ∀ ⦃item' : α⦄ ⦃after after' : List Char⦄, EndsItem after → EndsItem after' →
    f item ++ after = f item' ++ after' → item = item' ∧ after = after'

/-- After an item comes a comma or a brace. -/
theorem endsItem_flatMap (f : α → List Char) (items : List α) (after : List Char) :
    EndsItem (items.flatMap (fun item ↦ [',', ' '] ++ f item) ++ '}' :: after) := by
  intro c hc
  cases items with
  | nil => exact .inr (Option.some.inj hc).symm
  | cons item items => exact .inl (Option.some.inj hc).symm

private theorem flatMap_append_inj {f : α → List Char} {items items' : List α}
    {after after' : List Char} (hread : ∀ item ∈ items, IsReadableItem f item)
    (h : items.flatMap (fun item ↦ [',', ' '] ++ f item) ++ '}' :: after =
      items'.flatMap (fun item ↦ [',', ' '] ++ f item) ++ '}' :: after') :
    items = items' ∧ after = after' := by
  -- What comes after an item is again such a list, so the item is known to end there.
  induction items generalizing items' with
  | nil =>
    cases items' with
    | nil => exact ⟨rfl, (List.cons.inj h).2⟩
    | cons item' items' => exact absurd (List.cons.inj h).1 (by decide)
  | cons item items ih =>
    cases items' with
    | nil => exact absurd (List.cons.inj h).1 (by decide)
    | cons item' items' =>
      rw [List.flatMap_cons, List.flatMap_cons, List.append_assoc, List.append_assoc,
        List.append_assoc, List.append_assoc] at h
      obtain ⟨rfl, hrest⟩ := hread item List.mem_cons_self (endsItem_flatMap f items after)
        (endsItem_flatMap f items' after') (List.append_cancel_left h)
      obtain ⟨rfl, rfl⟩ := ih (fun other hm ↦ hread other (List.mem_cons_of_mem _ hm)) hrest
      exact ⟨rfl, rfl⟩

/-- A list between braces is read item by item, if no item begins with the closing brace. -/
theorem listed_append_inj {f : α → List Char} {items items' : List α} {after after' : List Char}
    (hread : ∀ item ∈ items, IsReadableItem f item)
    (hfirst : ∀ item, ∃ c rest, f item = c :: rest ∧ c ≠ '}')
    (h : [',', ' '].intercalate (items.map f) ++ '}' :: after =
      [',', ' '].intercalate (items'.map f) ++ '}' :: after') :
    items = items' ∧ after = after' := by
  cases items with
  | nil =>
    cases items' with
    | nil => exact ⟨rfl, (List.cons.inj h).2⟩
    | cons item' items' =>
      obtain ⟨c, rest, hc, hne⟩ := hfirst item'
      rw [List.map_cons, intercalate_cons, hc] at h
      exact absurd (List.cons.inj h).1.symm hne
  | cons item items =>
    cases items' with
    | nil =>
      obtain ⟨c, rest, hc, hne⟩ := hfirst item
      rw [List.map_cons, intercalate_cons, hc] at h
      exact absurd (List.cons.inj h).1 hne
    | cons item' items' =>
      rw [List.map_cons, List.map_cons, intercalate_cons, intercalate_cons, List.flatMap_map,
        List.flatMap_map, List.append_assoc, List.append_assoc] at h
      obtain ⟨rfl, hrest⟩ := hread item List.mem_cons_self (endsItem_flatMap f items after)
        (endsItem_flatMap f items' after') h
      obtain ⟨rfl, rfl⟩ :=
        flatMap_append_inj (fun other hm ↦ hread other (List.mem_cons_of_mem _ hm)) hrest
      exact ⟨rfl, rfl⟩

end Sentential
