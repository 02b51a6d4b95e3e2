import Containerfile.Proofs.Grammar.Basic
import Containerfile.Proofs.ImageName

/-! # Names of stages and names of images

The same text may name a stage or an image, and two places tell the kinds apart: what a stage is
built on is an earlier stage only if its name is bare (`ImageName.isBare`), and what COPY takes
files from is an image only if the text has a mark of image names (`ImageName.isQualified`).  The
one looks at the parts of a name and the other at its text, and they decide alike.

Main statement: `ImageName.lossless_of_read`. -/
namespace Containerfile

variable {t : Text} {n : ImageName}

/-- **What COPY takes files from** where the text is the name of an image and of no earlier stage:
the image, unless a stage could have its name. -/
theorem Grammar.source_of_read (s : Statement) {cx : Context} (h : ImageName.read t = .ok n)
    (hcx : cx.deferred = false) (hstage : cx.aliases.resolveEarlier t = none) :
    source s t cx =
      ⟨if n.isBare then .error (.unknownStage t s.lines) else .ok (.image n), []⟩ := by
  have hbare : n.isBare = !ImageName.isQualified t := by
    rw [(ImageName.of_readTrimmed h).1, ImageName.isBare_ofText, ImageName.isQualified_trim]
  rw [source, bind_of_ok (context_run cx), hcx, if_neg Bool.false_ne_true, hstage, hbare]
  cases hq : ImageName.isQualified t with
  | true => simp [h]
  | false => simp

namespace ImageName

/-- **An image name loses nothing, and everyone agrees on which names are bare.**  Whatever text
is read as an image name:

1. The name is written as the text without the blanks around it, and what is written is read as the
   same name.
2. It has a repository, and a tag has a character and none of the three marks.
3. It is bare exactly if none of the marks stands in the text, blanks around it or not.
4. COPY takes files from this image exactly if the name is not bare, unless the text
   names an earlier stage. -/
theorem lossless_of_read (h : read t = .ok n) :
    (n.render = t.trim ∧ read n.render = .ok n) ∧
      (n.repository ≠ [] ∧ ∀ tag ∈ n.tag, tag ≠ [] ∧ '/' ∉ tag ∧ ':' ∉ tag ∧ '@' ∉ tag) ∧
      ((n.isBare = true ↔ '/' ∉ t.trim ∧ ':' ∉ t.trim ∧ '@' ∉ t.trim) ∧
        isQualified t = !n.isBare) ∧
      ∀ (s : Statement) (cx : Context), cx.deferred = false → cx.aliases.resolveEarlier t = none →
        (Grammar.source s t cx).result =
          if n.isBare then .error (.unknownStage t s.lines) else .ok (.image n) := by
  have hrender := render_of_read h
  have hbare : n.isBare = !isQualified t.trim := by
    rw [(of_readTrimmed h).1, isBare_ofText]
  refine ⟨⟨hrender, ?_⟩, ⟨(of_readTrimmed h).2.1, not_mem_tag h⟩, ⟨?_, ?_⟩, ?_⟩
  · rw [hrender, read, Text.trim_eq_self (Text.trimmed_trim t)]
    exact h
  · rw [hbare, Bool.not_eq_true', isQualified_eq_false_iff]
  · rw [hbare, isQualified_trim, Bool.not_not]
  · intro s cx hcx hstage
    rw [Grammar.source_of_read s h hcx hstage]

/-- A registry with a port, a tag and a digest with a colon, and blanks around. -/
theorem lossless_of_read_port :
    let t := " localhost:5000/app:1@sha256:0 ".toList
    let n : ImageName :=
      ⟨some "localhost:5000".toList, "app".toList, some "1".toList, some "sha256:0".toList⟩
    read t = .ok n ∧ n.render = Text.trim t ∧ read n.render = .ok n ∧ n.isBare = false ∧
      (Grammar.source ⟨.copy, [], [], .text [], .single 2, []⟩ t
        ⟨'\\', none, [none], false⟩).result =
        .ok (.image n) := by
  have hread : read " localhost:5000/app:1@sha256:0 ".toList = .ok ⟨some "localhost:5000".toList,
      "app".toList, some "1".toList, some "sha256:0".toList⟩ := by rfl
  obtain ⟨⟨hrender, hagain⟩, -, -, hsource⟩ := lossless_of_read hread
  exact ⟨hread, hrender, hagain, by decide,
    hsource ⟨.copy, [], [], .text [], .single 2, []⟩ ⟨'\\', none, [none], false⟩ rfl (by decide)⟩

end ImageName

end Containerfile
