import Containerfile.Assembly
import Containerfile.Grammar.Files
import Containerfile.Proofs.Aliases

/-! # Assemblies that are well-formed

In a well-formed assembly stages know where they stand, have names that differ, hold no FROM but
their own, and are built on earlier stages only, and on those wherever their bases name one.  Every
base that was taken for an image and could be a stage is kept to be looked at again.  Opening a
stage and adding an instruction keep this (`Assembly.WellFormed.openStage`,
`Assembly.WellFormed.push`).  So a base that turns out in the end to be a stage is the same or a
later one (`Assembly.WellFormed.late`). -/
namespace Containerfile

/-- Only a FROM has its keyword. -/
theorem Instruction.keyword_eq_fromImage_iff {i : Instruction} :
    i.keyword = .fromImage ↔ ∃ base, i = .fromImage base := by
  cases i with
  | fromImage base => simp [keyword]
  | step s => simp [keyword, s.keyword_ne.1]
  | onbuild trigger => simp [keyword]
  | maintainer name => simp [keyword]

/-- What a stage is when it is opened. -/
def Stage.head (s : Stage) : Stage := { s with body := [], bindings := [] }

/-- Stages that were opened alike differ in their bodies and bindings alone. -/
theorem Stage.eq_of_head {s t : Stage} (h : t.head = s.head) :
    t = { s with body := t.body, bindings := t.bindings } := by
  cases s
  cases t
  cases h
  rfl

/-- The base of a stage with the lines of its FROM, if it is to be looked at again. -/
def Stage.unresolved (s : Stage) : List (Text × LineSpan) :=
  (s.base.unresolved?.map fun name => (name, s.openingLines)).toList

theorem Stage.mem_unresolved {s : Stage} {u : Text × LineSpan} :
    u ∈ s.unresolved ↔ ∃ image, s.base = .external image ∧ image.isBare = true ∧
      u = (image.repository, s.openingLines) := by
  rw [unresolved, Option.mem_toList, Option.map_eq_some_iff]
  constructor
  · rintro ⟨name, hname, rfl⟩
    cases hbase : s.base with
    | external image =>
      rw [hbase, Base.unresolved?, Option.ite_none_right_eq_some] at hname
      obtain ⟨hbare, hrepository⟩ := hname
      exact ⟨image, rfl, hbare, by rw [Option.some.inj hrepository]⟩
    | stage index =>
      rw [hbase] at hname
      cases hname
    | scratch =>
      rw [hbase] at hname
      cases hname
  · rintro ⟨image, hbase, hbare, rfl⟩
    exact ⟨image.repository, by rw [hbase, Base.unresolved?, if_pos hbare], rfl⟩

/-- Whether a stage is as it should be. -/
structure Stage.WellFormed (s : Stage) : Prop where
  named : ∀ name ∈ s.givenName, Grammar.isStageName name = true
  backward : ∀ index, s.base = .stage index → index < s.index
  body : ∀ e ∈ s.body, e.keyword ≠ .fromImage

namespace Assembly

variable {a b : Assembly} {opening : BaseImage} {lines : LineSpan} {e : Entry} {s : Stage}

/-! ## Steps -/

/-- The stage that a FROM opens. -/
def stageFor (a : Assembly) (opening : BaseImage) (lines : LineSpan) : Stage :=
  { index := a.stages.size
    opening := opening
    openingLines := lines
    base := a.resolveBase opening.image }

theorem openStage_eq_ok_iff :
    a.openStage opening lines = .ok b ↔
      a.takenName? opening = none ∧
        b = { stages := a.stages.begin (a.stageFor opening lines)
              unresolved := a.unresolved ++ (a.stageFor opening lines).unresolved } := by
  rw [openStage]
  cases a.takenName? opening with
  | some name => simp
  | none => simp [stageFor, Stage.unresolved, eq_comm]

theorem push_eq_ok_iff :
    a.push e = .ok b ↔
      a.hasStage = true ∧ b = { a with stages := a.stages.modify (Stage.add e) } := by
  rw [push]
  split
  · rename_i hs
    simp [hs, eq_comm]
  · rename_i hs
    simp [hs]

theorem hasStage_iff : a.hasStage = true ↔ a.stages.size ≠ 0 := by
  rw [hasStage, Bool.not_eq_true', ← Bool.not_eq_true, Draft.isEmpty_iff_size]

theorem length_aliases (a : Assembly) : a.aliases.length = a.stages.size := List.length_map _

/-- The stages as they were opened. -/
def heads (a : Assembly) : List Stage := a.stages.toList.map Stage.head

theorem aliases_eq (a : Assembly) : a.aliases = a.heads.map Stage.givenName := by
  rw [heads, List.map_map]
  rfl

theorem heads_of_openStage (h : a.openStage opening lines = .ok b) :
    b.heads = a.heads ++ [a.stageFor opening lines] := by
  obtain ⟨-, rfl⟩ := openStage_eq_ok_iff.mp h
  rw [heads, Draft.toList_begin, List.map_append]
  rfl

/-- Adding an instruction changes no stage as it was opened. -/
theorem heads_of_push (h : a.push e = .ok b) : b.heads = a.heads := by
  obtain ⟨-, rfl⟩ := push_eq_ok_iff.mp h
  rw [heads, heads]
  cases a.stages with
  | empty => rfl
  | writing settled current => simp [Draft.modify, Draft.toList, Stage.add, Stage.head]

theorem aliases_of_openStage (h : a.openStage opening lines = .ok b) :
    b.aliases = a.aliases ++ [opening.stageName] := by
  rw [aliases_eq, heads_of_openStage h, List.map_append, ← aliases_eq]
  rfl

theorem aliases_of_push (h : a.push e = .ok b) : b.aliases = a.aliases := by
  rw [aliases_eq, heads_of_push h, ← aliases_eq]

/-- A name that is not taken is not found. -/
theorem position_of_takenName? (h : a.takenName? opening = none) :
    ∀ name ∈ opening.stageName, a.aliases.position name = none := by
  intro name hname
  rw [takenName?, Option.mem_def.mp hname] at h
  simpa using h

/-- A name that is taken was given by the FROM and is found. -/
theorem position_of_takenName?_eq_some {name : Text} (h : a.takenName? opening = some name) :
    opening.stageName = some name ∧ ∃ k, a.aliases.position name = some k := by
  rw [takenName?, Option.filter_eq_some_iff] at h
  exact ⟨h.1, Option.isSome_iff_exists.mp h.2⟩

/-- A stage that something is built on is there already. -/
theorem lt_of_resolveBase {image : ImageName} {index : Nat}
    (h : a.resolveBase image = .stage index) : index < a.stages.size := by
  rw [resolveBase] at h
  split at h
  · split at h
    · rename_i k hk
      cases h
      rw [← length_aliases]
      exact Aliases.lt_of_position hk
    · split at h
      · cases h
      · cases h
  · cases h

/-- A stage is built on an image with a bare name only if that is no name of a stage. -/
theorem isCalled_of_resolveBase {image image' : ImageName}
    (h : a.resolveBase image = .external image') (hbare : image'.isBare = true) :
    ∀ s ∈ a.heads, Aliases.isCalled image'.repository s.givenName = false := by
  rw [resolveBase] at h
  split at h
  · split at h
    · cases h
    · rename_i hnone
      split at h
      · cases h
      · cases h
        rw [aliases_eq, Aliases.position, List.findIdx?_eq_none_iff] at hnone
        exact fun s hs => hnone s.givenName (List.mem_map_of_mem hs)
  · rename_i hnot
    cases h
    exact absurd hbare hnot

/-! ## What steps keep -/

/-- Whether an assembly is as a reading leaves it. -/
structure WellFormed (a : Assembly) : Prop where
  indexed : ∀ (k : Nat) (s : Stage), a.stages.toList[k]? = some s → s.index = k
  stages : ∀ s ∈ a.stages.toList, s.WellFormed
  distinct : a.aliases.Distinct
  outside : a.heads.Pairwise fun t s => ∀ image, s.base = .external image →
    image.isBare = true → Aliases.isCalled image.repository t.givenName = false
  /-- No base that has to be looked at again is left out. -/
  unresolved : a.unresolved = a.heads.flatMap Stage.unresolved

theorem wellFormed_empty : WellFormed {} where
  indexed := by simp
  stages := by simp
  distinct := List.Pairwise.nil
  outside := List.Pairwise.nil
  unresolved := rfl

theorem WellFormed.openStage (h : a.WellFormed)
    (hname : ∀ name ∈ opening.stageName, Grammar.isStageName name = true)
    (hb : a.openStage opening lines = .ok b) : b.WellFormed := by
  refine ⟨?_, ?_, ?_, ?_, ?_⟩
  · obtain ⟨-, rfl⟩ := openStage_eq_ok_iff.mp hb
    intro k s hs
    rcases Draft.getElem?_begin hs with hs | ⟨rfl, rfl⟩
    · exact h.indexed k s hs
    · rfl
  · obtain ⟨-, rfl⟩ := openStage_eq_ok_iff.mp hb
    rw [Draft.toList_begin, List.forall_mem_append, List.forall_mem_singleton]
    exact ⟨h.stages, hname, fun index hindex => lt_of_resolveBase hindex, by simp [stageFor]⟩
  · rw [aliases_of_openStage hb]
    exact h.distinct.append (position_of_takenName? (openStage_eq_ok_iff.mp hb).1)
  · rw [heads_of_openStage hb]
    refine List.pairwise_append.mpr ⟨h.outside, List.pairwise_singleton _ _, ?_⟩
    intro t ht s hs image hbase hbare
    obtain rfl := List.mem_singleton.mp hs
    exact isCalled_of_resolveBase hbase hbare t ht
  · rw [heads_of_openStage hb, List.flatMap_append, List.flatMap_singleton, ← h.unresolved]
    obtain ⟨-, rfl⟩ := openStage_eq_ok_iff.mp hb
    rfl

theorem WellFormed.push (h : a.WellFormed) (he : e.keyword ≠ .fromImage)
    (hb : a.push e = .ok b) : b.WellFormed := by
  refine ⟨?_, ?_, ?_, ?_, ?_⟩
  · obtain ⟨-, rfl⟩ := push_eq_ok_iff.mp hb
    intro k s hs
    obtain ⟨t, ht, rfl | ⟨-, rfl⟩⟩ := Draft.getElem?_modify hs
    · exact h.indexed k s ht
    · exact h.indexed k t ht
  · obtain ⟨-, rfl⟩ := push_eq_ok_iff.mp hb
    intro s hs
    obtain ⟨t, ht, rfl | rfl⟩ := Draft.mem_modify hs
    · exact h.stages s ht
    · have hwell := h.stages t ht
      refine ⟨hwell.named, hwell.backward, ?_⟩
      rw [Stage.add, List.forall_mem_append, List.forall_mem_singleton]
      exact ⟨hwell.body, he⟩
  · rw [aliases_of_push hb]
    exact h.distinct
  · rw [heads_of_push hb]
    exact h.outside
  · rw [heads_of_push hb, ← h.unresolved]
    obtain ⟨-, rfl⟩ := push_eq_ok_iff.mp hb
    rfl

theorem WellFormed.index_of_heads (h : a.WellFormed) {k : Nat} (hs : a.heads[k]? = some s) :
    s.index = k := by
  rw [heads, List.getElem?_map, Option.map_eq_some_iff] at hs
  obtain ⟨t, ht, rfl⟩ := hs
  exact h.indexed k t ht

/-- A stage whose name is found is where it is found. -/
theorem WellFormed.exists_called (h : a.WellFormed) {name : Text} {k : Nat}
    (hk : a.aliases.position name = some k) :
    ∃ s, a.heads[k]? = some s ∧ s.index = k ∧ Aliases.isCalled name s.givenName = true := by
  obtain ⟨n, hn, hsame⟩ := Aliases.called_of_position hk
  rw [aliases, List.getElem?_map, Option.map_eq_some_iff] at hn
  obtain ⟨s, hs, hname⟩ := hn
  refine ⟨s.head, ?_, h.indexed k s hs, Aliases.isCalled_eq_true_iff.mpr ⟨n, hname, hsame⟩⟩
  rw [heads, List.getElem?_map, hs]
  rfl

/-- **A base that shows too late to be a stage names the same or a later one.** -/
theorem WellFormed.late (h : a.WellFormed) {f : Failure} (hf : f ∈ a.lateFailures) :
    ∃ s ∈ a.heads, ∃ t ∈ a.heads, ∃ image, s.base = .external image ∧ image.isBare = true ∧
      s.index ≤ t.index ∧ Aliases.isCalled image.repository t.givenName = true ∧
      f = .unknownStage image.repository s.openingLines := by
  obtain ⟨u, hu, rfl⟩ := List.mem_map.mp hf
  rw [List.mem_filter, h.unresolved, List.mem_flatMap] at hu
  obtain ⟨⟨s, hs, hsu⟩, hfound⟩ := hu
  obtain ⟨image, hbase, hbare, rfl⟩ := Stage.mem_unresolved.mp hsu
  obtain ⟨k, hk⟩ := Option.isSome_iff_exists.mp hfound
  obtain ⟨t, ht, htk, hcalled⟩ := h.exists_called hk
  refine ⟨s, hs, t, List.mem_of_getElem? ht, image, hbase, hbare, ?_, hcalled, rfl⟩
  obtain ⟨i, hi⟩ := List.mem_iff_getElem?.mp hs
  have hindex : s.index = i := h.index_of_heads hi
  rcases Nat.lt_or_ge k i with hki | hik
  · -- an earlier stage of that name would have been found when the stage was opened
    obtain ⟨hkl, hget⟩ := List.getElem?_eq_some_iff.mp ht
    obtain ⟨hil, hgeti⟩ := List.getElem?_eq_some_iff.mp hi
    have houtside := List.pairwise_iff_getElem.mp h.outside k i hkl hil hki
    rw [hget, hgeti] at houtside
    rw [houtside image hbase hbare] at hcalled
    cases hcalled
  · omega

/-! ## The stages at the end -/

theorem mem_finish {scope : Scope} :
    s ∈ a.finish scope ↔
      ∃ t ∈ a.stages.toList, s = { t with bindings := scope.bindingsOf t.index } := by
  rw [finish, List.mem_map]
  simp only [eq_comm]

/-- The bindings at the end change no stage as it was opened. -/
theorem map_head_finish (a : Assembly) (scope : Scope) :
    (a.finish scope).map Stage.head = a.heads := by
  rw [finish, List.map_map]
  rfl

theorem map_givenName_finish (a : Assembly) (scope : Scope) :
    (a.finish scope).map Stage.givenName = a.aliases := by
  rw [finish, List.map_map]
  rfl

end Assembly

end Containerfile
