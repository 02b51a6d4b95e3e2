/-! # Drafts

A sequence that grows at its end and whose last member, if there is one, can still be changed.
Members before the last one are settled. -/
namespace Containerfile

/-- A growing sequence. -/
inductive Draft (α : Type) where
  | empty
  | writing (settled : List α) (current : α)
  deriving DecidableEq, Repr

namespace Draft

variable {α : Type}

/-- All members in order. -/
def toList : Draft α → List α
  | empty => []
  | writing settled current => settled ++ [current]

/-- The number of members. -/
def size (d : Draft α) : Nat := d.toList.length

/-- The last member. -/
def current? : Draft α → Option α
  | empty => none
  | writing _ current => some current

/-- Whether there is no member. -/
def isEmpty : Draft α → Bool
  | empty => true
  | writing .. => false

/-- Settles the last member and begins a new one. -/
def begin (d : Draft α) (a : α) : Draft α := writing d.toList a

/-- Changes the last member, if there is one. -/
def modify (f : α → α) : Draft α → Draft α
  | empty => empty
  | writing settled current => writing settled (f current)

@[simp] theorem toList_empty : (empty : Draft α).toList = [] := rfl

@[simp] theorem toList_begin (d : Draft α) (a : α) : (d.begin a).toList = d.toList ++ [a] := rfl

@[simp] theorem current?_begin (d : Draft α) (a : α) : (d.begin a).current? = some a := rfl

@[simp] theorem size_begin (d : Draft α) (a : α) : (d.begin a).size = d.size + 1 := by
  simp [size]

@[simp] theorem size_modify (f : α → α) (d : Draft α) : (d.modify f).size = d.size := by
  cases d <;> simp [size, modify, toList]

theorem current?_eq_getLast? (d : Draft α) : d.current? = d.toList.getLast? := by
  cases d <;> simp [current?, toList]

theorem isEmpty_iff_size (d : Draft α) : d.isEmpty = true ↔ d.size = 0 := by
  cases d <;> simp [isEmpty, size, toList]

/-- A member after a beginning is one from before or the new one. -/
theorem getElem?_begin {d : Draft α} {a b : α} {k : Nat}
    (h : (d.begin a).toList[k]? = some b) : d.toList[k]? = some b ∨ (k = d.size ∧ b = a) := by
  rw [toList_begin, List.getElem?_append] at h
  split at h
  · exact Or.inl h
  · rw [List.getElem?_singleton] at h
    split at h
    · cases h
      rw [size]
      exact Or.inr ⟨by omega, rfl⟩
    · cases h

/-- A member after a change is one from before, or the last one changed. -/
theorem getElem?_modify {f : α → α} {d : Draft α} {b : α} {k : Nat}
    (h : (d.modify f).toList[k]? = some b) :
    ∃ a, d.toList[k]? = some a ∧ (b = a ∨ (k + 1 = d.size ∧ b = f a)) := by
  cases d with
  | empty => cases h
  | writing settled current =>
    rw [modify, toList, List.getElem?_append] at h
    rw [toList, List.getElem?_append]
    split at h
    · rename_i hk
      rw [if_pos hk]
      exact ⟨b, h, Or.inl rfl⟩
    · rename_i hk
      rw [List.getElem?_singleton] at h
      split at h
      · rename_i hlast
        cases h
        refine ⟨current, ?_, Or.inr ⟨?_, rfl⟩⟩
        · rw [if_neg hk, hlast, List.getElem?_singleton, if_pos rfl]
        · simp only [size, toList, List.length_append, List.length_singleton]
          omega
      · cases h

/-- A member after a change is one from before, or one from before changed. -/
theorem mem_modify {f : α → α} {d : Draft α} {b : α} (h : b ∈ (d.modify f).toList) :
    ∃ a ∈ d.toList, b = a ∨ b = f a := by
  obtain ⟨k, hk⟩ := List.mem_iff_getElem?.mp h
  obtain ⟨a, ha, hb⟩ := getElem?_modify hk
  exact ⟨a, List.mem_of_getElem? ha, hb.imp_right And.right⟩

/-! ## Changing all members -/

/-- Changes all members of a draft. -/
def map {β : Type} (f : α → β) : Draft α → Draft β
  | empty => empty
  | writing settled current => writing (settled.map f) (f current)

variable {β : Type} {f : α → β}

@[simp] theorem toList_map (d : Draft α) : (d.map f).toList = d.toList.map f := by
  cases d with
  | empty => rfl
  | writing settled current => simp [map, toList]

@[simp] theorem size_map (d : Draft α) : (d.map f).size = d.size := by
  rw [size, toList_map, List.length_map, size]

@[simp] theorem current?_map (d : Draft α) : (d.map f).current? = d.current?.map f := by
  cases d <;> rfl

@[simp] theorem isEmpty_map (d : Draft α) : (d.map f).isEmpty = d.isEmpty := by cases d <;> rfl

theorem map_begin (d : Draft α) (a : α) : (d.begin a).map f = (d.map f).begin (f a) := by
  rw [begin, begin, map, toList_map]

theorem map_modify {g : α → α} {g' : β → β} (h : ∀ a, f (g a) = g' (f a)) (d : Draft α) :
    (d.modify g).map f = (d.map f).modify g' := by
  cases d with
  | empty => rfl
  | writing settled current => simp [map, modify, h]

end Draft

end Containerfile
