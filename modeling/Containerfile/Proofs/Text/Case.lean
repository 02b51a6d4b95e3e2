import Containerfile.Proofs.Text.Trim

/-! # Case

Making capitals small turns letters into letters and changes nothing else, so characters that are no
letters, blanks among them, can be told before and after. -/
namespace Containerfile.Text

variable {c d : Char} {t : Text}

/-! ## Letters -/

theorem isUpper_iff_toNat : c.isUpper = true ↔ 65 ≤ c.toNat ∧ c.toNat ≤ 90 := decide_eq_true_iff

theorem isLower_iff_toNat : c.isLower = true ↔ 97 ≤ c.toNat ∧ c.toNat ≤ 122 := by
  change (decide (97 ≤ c.toNat) && decide (c.toNat ≤ 122)) = true ↔ _
  rw [Bool.and_eq_true, decide_eq_true_iff, decide_eq_true_iff]

theorem isAlpha_iff : c.isAlpha = true ↔ c.isUpper = true ∨ c.isLower = true := by
  change (c.isUpper || c.isLower) = true ↔ _
  rw [Bool.or_eq_true]

theorem isBlank_of_isAlpha (h : c.isAlpha = true) : isBlank c = false := by
  rw [isAlpha_iff, isUpper_iff_toNat, isLower_iff_toNat] at h
  rw [Bool.eq_false_iff]
  intro hblank
  have hrange := not_visible_of_isBlank hblank
  omega

/-! ## Small letters -/

theorem toLower_of_not_isUpper (h : c.isUpper = false) : c.toLower = c :=
  dif_neg fun hrange => Bool.false_ne_true (h.symm.trans (decide_eq_true hrange))

theorem isLower_of_isUpper (h : c.isUpper = true) : c.toLower.isLower = true := by
  have hval : c.toLower = ⟨c.val + ('a'.val - 'A'.val), _⟩ := dif_pos (of_decide_eq_true h)
  rw [isUpper_iff_toNat] at h
  have hnat : c.toLower.toNat = c.toNat + 32 := by
    rw [hval, Char.toNat, UInt32.toNat_add]
    exact Nat.mod_eq_of_lt (by change c.toNat + 32 < 2 ^ 32; omega)
  rw [isLower_iff_toNat, hnat]
  omega

theorem isAlpha_of_toLower (h : c.toLower.isAlpha = true) : c.isAlpha = true := by
  cases hupper : c.isUpper with
  | true => exact isAlpha_iff.mpr (.inl hupper)
  | false => rwa [toLower_of_not_isUpper hupper] at h

/-- A character that is no letter is made of no other one. -/
theorem toLower_eq_iff (hd : d.isAlpha = false) : c.toLower = d ↔ c = d := by
  cases hupper : c.isUpper with
  | false => rw [toLower_of_not_isUpper hupper]
  | true =>
    have hc : c.isAlpha = true := isAlpha_iff.mpr (.inl hupper)
    have hlower : c.toLower.isAlpha = true := isAlpha_iff.mpr (.inr (isLower_of_isUpper hupper))
    constructor
    · rintro rfl
      rw [hlower] at hd
      cases hd
    · rintro rfl
      rw [hc] at hd
      cases hd

theorem toLower_toLower (c : Char) : c.toLower.toLower = c.toLower := by
  cases hupper : c.isUpper with
  | false => rw [toLower_of_not_isUpper hupper, toLower_of_not_isUpper hupper]
  | true =>
    have hlower := isLower_iff_toNat.mp (isLower_of_isUpper hupper)
    refine toLower_of_not_isUpper (Bool.eq_false_iff.mpr fun h => ?_)
    rw [isUpper_iff_toNat] at h
    omega

theorem isBlank_toLower (c : Char) : isBlank c.toLower = isBlank c := by
  cases hupper : c.isUpper with
  | false => rw [toLower_of_not_isUpper hupper]
  | true =>
    rw [isBlank_of_isAlpha (isAlpha_iff.mpr (.inl hupper)),
      isBlank_of_isAlpha (isAlpha_iff.mpr (.inr (isLower_of_isUpper hupper)))]

/-! ## Small texts -/

theorem lower_lower (t : Text) : t.lower.lower = t.lower := by
  rw [lower, lower, List.map_map]
  exact List.map_congr_left fun c _ => toLower_toLower c

/-- Characters that are no letters stay where they are. -/
theorem mem_lower_iff (hc : c.isAlpha = false) : c ∈ t.lower ↔ c ∈ t := by
  rw [lower, List.mem_map]
  constructor
  · rintro ⟨d, hd, hdc⟩
    rwa [← (toLower_eq_iff hc).mp hdc]
  · intro h
    exact ⟨c, h, (toLower_eq_iff hc).mpr rfl⟩

/-- A word in small letters is a word. -/
theorem blankless_lower (h : ∀ c ∈ t, isBlank c = false) : ∀ c ∈ t.lower, isBlank c = false := by
  intro c hc
  obtain ⟨d, hd, rfl⟩ := List.mem_map.mp hc
  rw [isBlank_toLower]
  exact h d hd

end Containerfile.Text
