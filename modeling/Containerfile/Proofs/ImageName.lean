import Containerfile.ImageName
import Containerfile.Proofs.Text.OneLine

/-! # Image names keep their text

The parts of an image name put together again are the text that the name was read from, without the
blanks around it.  Reading only ever splits: the digest starts behind the first `@`, the tag behind
the last colon after the last slash, and the registry ends at the first slash (`ImageName.ofText`).
So a name is bare exactly if none of the three marks stands in its text
(`ImageName.isBare_ofText`). -/
namespace Containerfile.ImageName

variable {t : Text} {n : ImageName}

/-! ## Splitting -/

theorem splitDigest_eq (t : Text) : (splitDigest t).1 ++ marked '@' (splitDigest t).2 = t := by
  rw [splitDigest]
  cases h : Text.splitOnce '@' t with
  | none => exact List.append_nil t
  | some p => exact (Text.splitOnce_eq_some h).1.symm

theorem splitColon_eq (t : Text) : (splitColon t).1 ++ marked ':' (splitColon t).2 = t := by
  rw [splitColon]
  cases h : Text.splitLast ':' t with
  | none => exact List.append_nil t
  | some p => exact (Text.splitLast_eq_some h).1.symm

theorem splitTag_eq (t : Text) : (splitTag t).1 ++ marked ':' (splitTag t).2 = t := by
  rw [splitTag]
  cases h : Text.splitLast '/' t with
  | none => exact splitColon_eq t
  | some p =>
    have hlast := splitColon_eq p.2
    have ht := (Text.splitLast_eq_some h).1
    show p.1 ++ '/' :: (splitColon p.2).1 ++ marked ':' (splitColon p.2).2 = t
    rw [List.append_assoc, List.cons_append, hlast]
    exact ht.symm

theorem splitRegistry_eq (t : Text) (tag digest : Option Text) :
    ImageName.path ⟨(splitRegistry t).1, (splitRegistry t).2, tag, digest⟩ = t := by
  rw [splitRegistry]
  cases h : Text.splitOnce '/' t with
  | none => rfl
  | some p =>
    by_cases hp : isHost p.1 = true
    · simp only [if_pos hp]
      exact (Text.splitOnce_eq_some h).1.symm
    · simp only [if_neg hp]
      rfl

/-- The first `@` starts the digest. -/
theorem not_mem_splitDigest (t : Text) : '@' ∉ (splitDigest t).1 := by
  rw [splitDigest]
  cases h : Text.splitOnce '@' t with
  | none => exact Text.splitOnce_eq_none_iff.mp h
  | some p => exact (Text.splitOnce_eq_some h).2

theorem splitDigest_eq_none_iff : (splitDigest t).2 = none ↔ '@' ∉ t := by
  rw [← Text.splitOnce_eq_none_iff, splitDigest]
  cases Text.splitOnce '@' t <;> simp

theorem splitColon_eq_none_iff : (splitColon t).2 = none ↔ ':' ∉ t := by
  rw [← Text.splitLast_eq_none_iff, splitColon]
  cases Text.splitLast ':' t <;> simp

theorem not_mem_splitColon : ∀ tag ∈ (splitColon t).2, ':' ∉ tag := by
  rw [splitColon]
  cases h : Text.splitLast ':' t with
  | none => simp
  | some p =>
    rintro tag ⟨⟩
    exact (Text.splitLast_eq_some h).2

/-- A tag is a part of the text. -/
theorem subset_of_splitTag : ∀ tag ∈ (splitTag t).2, tag ⊆ t := by
  intro tag htag
  have ht := splitTag_eq t
  rw [Option.mem_def.mp htag, marked] at ht
  rw [← ht]
  exact List.Subset.trans (List.subset_cons_self ':' tag) (List.subset_append_right _ _)

/-- A tag has neither of the two marks that it is found by. -/
theorem not_mem_splitTag : ∀ tag ∈ (splitTag t).2, '/' ∉ tag ∧ ':' ∉ tag := by
  rw [splitTag]
  cases h : Text.splitLast '/' t with
  | none =>
    intro tag htag
    have hcolon := splitColon_eq t
    rw [Option.mem_def.mp htag, marked] at hcolon
    refine ⟨fun hslash => ?_, not_mem_splitColon tag htag⟩
    apply Text.splitLast_eq_none h
    rw [← hcolon]
    exact List.mem_append_right _ (List.mem_cons_of_mem _ hslash)
  | some p =>
    intro tag htag
    have hcolon := splitColon_eq p.2
    rw [Option.mem_def.mp htag, marked] at hcolon
    refine ⟨fun hslash => ?_, not_mem_splitColon tag htag⟩
    apply (Text.splitLast_eq_some h).2
    rw [← hcolon]
    exact List.mem_append_right _ (List.mem_cons_of_mem _ hslash)

theorem splitTag_of_not_mem (hslash : '/' ∉ t) : splitTag t = splitColon t := by
  rw [splitTag, Text.splitLast_eq_none_iff.mpr hslash]

theorem splitRegistry_of_not_mem (hslash : '/' ∉ t) : splitRegistry t = (none, t) := by
  rw [splitRegistry, Text.splitOnce_eq_none_iff.mpr hslash]

/-! ## Names -/

/-- The parts of a text, whether or not they make an image name. -/
def ofText (t : Text) : ImageName :=
  let named := splitDigest t
  let tagged := splitTag named.1
  let path := splitRegistry tagged.1
  ⟨path.1, path.2, tagged.2, named.2⟩

/-- **Parts put together are the text.** -/
theorem render_ofText (t : Text) : (ofText t).render = t := by
  rw [render, ofText, splitRegistry_eq, splitTag_eq, splitDigest_eq]

/-- What is read is the parts of the text. -/
theorem of_readTrimmed (h : readTrimmed t = .ok n) :
    n = ofText t ∧ n.repository ≠ [] ∧ n.tag ≠ some [] := by
  unfold readTrimmed at h
  split at h
  · cases h
  · split at h
    · cases h
    · dsimp only at h
      split at h
      · cases h
      · split at h
        · cases h
        · split at h
          · cases h
          · rename_i htag
            split at h
            · cases h
            · rename_i hrepository
              cases h
              exact ⟨rfl, fun hnil => hrepository (List.isEmpty_iff.mpr hnil), htag⟩

theorem render_of_readTrimmed (h : readTrimmed t = .ok n) : n.render = t := by
  rw [(of_readTrimmed h).1, render_ofText]

/-- **An image name is written as it was read.** -/
theorem render_of_read (h : read t = .ok n) : n.render = t.trim :=
  render_of_readTrimmed h

/-- A tag has none of the marks of an image name. -/
theorem not_mem_tag (h : readTrimmed t = .ok n) :
    ∀ tag ∈ n.tag, tag ≠ [] ∧ '/' ∉ tag ∧ ':' ∉ tag ∧ '@' ∉ tag := by
  obtain ⟨rfl, -, hne⟩ := of_readTrimmed h
  intro tag htag
  obtain ⟨hslash, hcolon⟩ := not_mem_splitTag tag htag
  refine ⟨?_, hslash, hcolon, ?_⟩
  · rintro rfl
    exact hne htag
  · exact fun hat => not_mem_splitDigest t (subset_of_splitTag tag htag hat)

theorem isQualified_eq_false_iff :
    isQualified t = false ↔ '/' ∉ t ∧ ':' ∉ t ∧ '@' ∉ t := by
  rw [isQualified, List.any_eq_false]
  constructor
  · intro h
    refine ⟨fun hc => ?_, fun hc => ?_, fun hc => ?_⟩ <;> exact h _ hc (by decide)
  · rintro ⟨hslash, hcolon, hat⟩ c hc hmark
    simp only [Bool.or_eq_true, beq_iff_eq] at hmark
    rcases hmark with (rfl | rfl) | rfl
    · exact hslash hc
    · exact hcolon hc
    · exact hat hc

/-- **A name is bare exactly if its text has none of the marks.** -/
theorem isBare_ofText (t : Text) : (ofText t).isBare = !isQualified t := by
  rw [Bool.eq_iff_iff, Bool.not_eq_true', isQualified_eq_false_iff]
  constructor
  · intro hbare
    simp only [isBare, Bool.and_eq_true, Option.isNone_iff_eq_none, Bool.not_eq_true',
      List.contains_eq_mem, decide_eq_false_iff_not] at hbare
    obtain ⟨⟨⟨hregistry, htag⟩, hdigest⟩, hslash⟩ := hbare
    -- nothing but the repository is left to write
    have ht := render_ofText t
    rw [render, path, hregistry, htag, hdigest, marked, marked, List.append_nil,
      List.append_nil] at ht
    dsimp only at ht
    rw [ht] at hslash
    have hat : '@' ∉ t := splitDigest_eq_none_iff.mp hdigest
    have hnamed : (splitDigest t).1 = t := by
      have hwhole := splitDigest_eq t
      rwa [splitDigest_eq_none_iff.mpr hat, marked, List.append_nil] at hwhole
    refine ⟨hslash, ?_, hat⟩
    have hcolon : (splitTag (splitDigest t).1).2 = none := htag
    rw [hnamed, splitTag_of_not_mem hslash] at hcolon
    exact splitColon_eq_none_iff.mp hcolon
  · rintro ⟨hslash, hcolon, hat⟩
    have hdigest : splitDigest t = (t, none) := by
      rw [splitDigest, Text.splitOnce_eq_none_iff.mpr hat]
    have htag : splitTag t = (t, none) := by
      rw [splitTag_of_not_mem hslash, splitColon, Text.splitLast_eq_none_iff.mpr hcolon]
    rw [ofText, hdigest]
    dsimp only
    rw [htag]
    dsimp only
    rw [splitRegistry_of_not_mem hslash]
    simpa [isBare] using hslash

/-- Blanks around a text are no marks. -/
theorem isQualified_trim (t : Text) : isQualified t.trim = isQualified t := by
  have hmark : ∀ c : Char, isBlank c = false → (c ∈ t.trim ↔ c ∈ t) := fun c hc =>
    Text.mem_trim_iff hc
  rw [Bool.eq_iff_iff, ← not_iff_not, Bool.not_eq_true, Bool.not_eq_true, isQualified_eq_false_iff,
    isQualified_eq_false_iff, hmark '/' (by decide), hmark ':' (by decide), hmark '@' (by decide)]

end Containerfile.ImageName
