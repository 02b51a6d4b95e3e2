import Containerfile.Aliases

/-! # Finding stages by name

A name is found where a stage has it, whatever the case of its letters.  Stages that come later do
not change what was found before (`Aliases.find_append`), and where no two stages have the same name
each is found under its own (`Aliases.Distinct.position`). -/
namespace Containerfile.Aliases

variable {a b : Aliases} {name reference : Text} {given : Option Text} {k : Nat}

theorem isCalled_eq_true_iff : isCalled name given = true ↔ ∃ n ∈ given, n.lower = name.lower := by
  cases given with
  | none => simp [isCalled]
  | some n =>
    rw [isCalled, Option.map_some, Option.getD_some, Text.sameName, beq_iff_eq, eq_comm]
    simp

/-! ## By name -/

theorem position_eq_none_iff :
    a.position name = none ↔ ∀ g ∈ a, ∀ n ∈ g, n.lower ≠ name.lower := by
  simp only [position, List.findIdx?_eq_none_iff, ← Bool.not_eq_true, isCalled_eq_true_iff]
  simp

/-- Where a name is found a stage has it. -/
theorem called_of_position (h : a.position name = some k) :
    ∃ n, a[k]? = some (some n) ∧ n.lower = name.lower := by
  obtain ⟨hk, hcalled, -⟩ := List.findIdx?_eq_some_iff_getElem.mp h
  obtain ⟨n, hn, hsame⟩ := isCalled_eq_true_iff.mp hcalled
  refine ⟨n, ?_, hsame⟩
  rw [List.getElem?_eq_getElem hk, Option.mem_def.mp hn]

theorem lt_of_position (h : a.position name = some k) : k < a.length := by
  obtain ⟨n, hn, -⟩ := called_of_position h
  exact (List.getElem?_eq_some_iff.mp hn).1

theorem position_append (h : a.position name = some k) (b : Aliases) :
    (a ++ b).position name = some k := by
  rw [position] at h
  rw [position, List.findIdx?_append, h]
  rfl

/-! ## Names that differ -/

/-- Whether no two stages have the same name. -/
def Distinct (a : Aliases) : Prop :=
  a.Pairwise fun x y => ∀ m ∈ x, ∀ n ∈ y, m.lower ≠ n.lower

/-- A stage may be added under a name that is not found. -/
theorem Distinct.append (h : a.Distinct) (hgiven : ∀ name ∈ given, a.position name = none) :
    (a ++ [given]).Distinct := by
  refine List.pairwise_append.mpr ⟨h, List.pairwise_singleton _ _, ?_⟩
  intro g hg x hx m hm n hn
  rw [List.mem_singleton.mp hx] at hn
  exact position_eq_none_iff.mp (hgiven n hn) g hg m hm

/-- **Among names that differ each is found where it was given**, whatever the case of its
letters. -/
theorem Distinct.position_of_called (h : a.Distinct) (hk : a[k]? = some given)
    (hcalled : isCalled name given = true) : a.position name = some k := by
  obtain ⟨hlt, hget⟩ := List.getElem?_eq_some_iff.mp hk
  rw [Aliases.position, List.findIdx?_eq_some_iff_getElem]
  refine ⟨hlt, by rw [hget, hcalled], ?_⟩
  intro j hj hearlier
  obtain ⟨m, hm, hmsame⟩ := isCalled_eq_true_iff.mp hearlier
  obtain ⟨n, hn, hnsame⟩ := isCalled_eq_true_iff.mp hcalled
  have hdiffer := List.pairwise_iff_getElem.mp h j k (by omega) hlt hj
  rw [hget] at hdiffer
  exact hdiffer m hm n hn (hmsame.trans hnsame.symm)

theorem Distinct.position (h : a.Distinct) (hk : a[k]? = some (some name)) :
    a.position name = some k :=
  h.position_of_called hk (isCalled_eq_true_iff.mpr ⟨name, rfl, rfl⟩)

/-! ## By index or name -/

/-- The index of the stage that a reference names, by index or else by name. -/
def find (a : Aliases) (reference : Text) : Option Nat :=
  match Numeral.read Numeral.greatest64 reference with
  | .ok index => if index < a.length then some index else none
  | .error _ => a.position reference

/-- **A stage that was found is found again when there are more.** -/
theorem find_append (h : a.find reference = some k) (b : Aliases) :
    (a ++ b).find reference = some k := by
  rw [find] at h ⊢
  split at h
  · split at h
    · rename_i hlt
      cases h
      have hlonger : k < (a ++ b).length := by
        rw [List.length_append]
        omega
      exact if_pos hlonger
    · cases h
  · exact position_append h b

/-- An earlier stage is one that is found and is not the last. -/
theorem resolveEarlier_eq_some_iff :
    a.resolveEarlier reference = some k ↔ a.find reference = some k ∧ k + 1 < a.length := by
  rw [resolveEarlier, find]
  have hearlier : ∀ o : Option Nat,
      (o.bind fun index => if index + 1 < a.length then some index else none) = some k ↔
        o = some k ∧ k + 1 < a.length := by
    intro o
    rw [Option.bind_eq_some_iff]
    constructor
    · rintro ⟨index, rfl, h⟩
      split at h
      · cases h
        exact ⟨rfl, by assumption⟩
      · cases h
    · rintro ⟨rfl, hk⟩
      exact ⟨k, rfl, if_pos hk⟩
  rcases Numeral.read Numeral.greatest64 reference with fault | index
  · exact hearlier _
  · -- an index that is not the last one is within bounds
    refine (hearlier (some index)).trans (and_congr_left fun hk => ?_)
    constructor
    · rintro ⟨⟩
      exact if_pos (by omega)
    · intro h
      have hfound : (if index < a.length then some index else none) = some k := h
      split at hfound
      · exact hfound
      · cases hfound

end Containerfile.Aliases
