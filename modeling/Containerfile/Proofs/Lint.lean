import Containerfile.Proofs.Document.Rows
import Mathlib.Data.List.Basic
import Mathlib.Order.Basic

/-! # What the lints find

A finding is an instruction of a stage with a reason to warn about it.  Whether there is a reason
is a question about the stages alone: what the instruction says, where it stands and what stands
behind it.  The stages are rows, so that a name says nothing about the instructions.  The lints
report every finding once, in the order of `Finding.key`, and skipping a rule takes its warnings
out of the list and nothing else.

Main statement: `Lint.rows_exact`. -/
namespace Containerfile

theorem Entry.keyword_eq_maintainer_iff {e : Entry} :
    e.keyword = .maintainer ↔ ∃ name, e.instruction = .maintainer name := by
  rw [Entry.keyword]
  cases e.instruction with
  | step s => simp [Instruction.keyword, s.keyword_ne.2.2]
  | _ => simp [Instruction.keyword]

theorem Entry.keyword_eq_onbuild_iff {e : Entry} :
    e.keyword = .onbuild ↔ ∃ step, e.instruction = .onbuild step := by
  rw [Entry.keyword]
  cases e.instruction with
  | step s => simp [Instruction.keyword, s.keyword_ne.2.1]
  | _ => simp [Instruction.keyword]

namespace Lint

/-! ## Skipping -/

/-- Whether warnings of a code are skipped: the code or the word `all` is listed, in any case. -/
def isSkipped (skipped : List Text) (code : String) : Bool :=
  (skipped.map (·.map Char.toLower)).any fun s =>
    s == "all".toList || s == code.toList.map Char.toLower

variable {skipped : List Text} {rows : List Row} {stages : List Stage}

theorem isSkipped_nil (code : String) : isSkipped [] code = false := rfl

/-- A rule is on if warnings of its name are not skipped. -/
theorem enabled_eq (r : Rule) : r.enabled skipped = !isSkipped skipped r.name := by
  have hall : Text.lower "all".toList = "all".toList := by decide
  rw [Rule.enabled, isSkipped, List.any_map]
  simp only [Text.sameName, hall]
  rfl

/-! ## Findings -/

/-- Why an instruction is warned about. -/
inductive Reason where
  /-- It comes first in a stage whose name has capitals. -/
  | casing
  /-- A later instruction of its keyword takes its place. -/
  | superseded (keyword : Keyword)
  /-- It has gone out of use. -/
  | deprecated
  /-- It is a trigger that nothing runs. -/
  | trigger
  deriving DecidableEq, Repr

/-- The code of the warnings for a reason. -/
def Reason.code : Reason → String
  | casing => "StageNameCasing"
  | superseded _ => "MultipleInstructionsDisallowed"
  | deprecated => "MaintainerDeprecated"
  | trigger => "OnbuildInFinalStage"

/-- The place of a reason among the reasons to warn about a stage. -/
def Reason.rank : Reason → Nat
  | casing => 0
  | superseded .cmd => 1
  | superseded .entrypoint => 2
  | superseded _ => 3
  | deprecated => 4
  | trigger => 5

/-- An instruction with a reason to warn about it. -/
structure Finding where
  reason : Reason
  /-- The index of the stage in the list. -/
  stageIndex : Nat
  stage : Row
  /-- The index of the instruction in its stage. -/
  index : Nat
  entry : Entry
  deriving DecidableEq, Repr

namespace Finding

/-- The wording of the warning. -/
def message (f : Finding) : String :=
  match f.reason with
  | .casing => s!"stage name '{str f.stage.title}' should be lowercase"
  | .superseded k =>
    s!"multiple {k.name} instructions in stage {str f.stage.title}; only the last one takes effect"
  | .deprecated => "MAINTAINER is deprecated; use LABEL maintainer=... instead"
  | .trigger => "ONBUILD in the final stage only runs when another build uses this image"

/-- The warning about the lines of the instruction. -/
def warning (f : Finding) : Diagnostic := ⟨.warning, f.reason.code, f.message, some f.entry.lines⟩

/-- The place of a finding among all of them: triggers come last, and the others stage by stage,
reason by reason and instruction by instruction. -/
def key (f : Finding) : List Nat :=
  [if f.reason = .trigger then 1 else 0, f.stageIndex, f.reason.rank, f.index]

/-- Whether there is such an instruction in a list of stages, and the reason holds of it. -/
def IsDue (rows : List Row) (f : Finding) : Prop :=
  rows[f.stageIndex]? = some f.stage ∧ f.stage.instructions[f.index]? = some f.entry ∧
    match f.reason with
    | .casing => f.index = 0 ∧ ∃ name ∈ f.stage.name, ∃ c ∈ name, 'A' ≤ c ∧ c ≤ 'Z'
    | .superseded k =>
      k ∈ [Keyword.cmd, .entrypoint, .healthcheck] ∧ f.entry.keyword = k ∧
        ∃ j later, f.index < j ∧ f.stage.instructions[j]? = some later ∧ later.keyword = k
    | .deprecated => ∃ name, f.entry.instruction = .maintainer name
    | .trigger => f.stageIndex + 1 = rows.length ∧ ∃ step, f.entry.instruction = .onbuild step

end Finding

/-! ## The findings of a list -/

/-- The instructions of a keyword in a stage, with a reason. -/
def occurrences (reason : Reason) (k : Keyword) (i : Nat) (r : Row) : List Finding :=
  (r.instructions.zipIdx.filter (·.1.keyword == k)).map fun x => ⟨reason, i, r, x.2, x.1⟩

/-- The first instruction of a stage whose name has capitals. -/
def capitals (i : Nat) (r : Row) : List Finding :=
  if r.name.any (·.any Char.isUpper) then
    (r.instructions[0]?.map fun e => ⟨.casing, i, r, 0, e⟩).toList
  else []

/-- The findings about a single stage. -/
def findingsOf (i : Nat) (r : Row) : List Finding :=
  capitals i r ++ lastOneWins.flatMap (fun k => (occurrences (.superseded k) k i r).dropLast) ++
    occurrences .deprecated .maintainer i r

/-- The triggers of the last stage. -/
def lastTriggers (rows : List Row) : List Finding :=
  (rows.zipIdx.getLast?.map fun x => occurrences .trigger .onbuild x.2 x.1).getD []

/-- The findings about the stages of a list. -/
def findings (rows : List Row) : List Finding :=
  rows.zipIdx.flatMap (fun x => findingsOf x.2 x.1) ++ lastTriggers rows

variable {reason : Reason} {k : Keyword} {i : Nat} {r : Row} {f : Finding} {fs : List Finding}

/-! ### They are what is due -/

theorem mem_occurrences : f ∈ occurrences reason k i r ↔
    f.reason = reason ∧ f.stageIndex = i ∧ f.stage = r ∧ r.instructions[f.index]? = some f.entry ∧
      f.entry.keyword = k := by
  rw [occurrences, List.mem_map]
  constructor
  · rintro ⟨x, hx, rfl⟩
    rw [List.mem_filter, List.mem_zipIdx_iff_getElem?, beq_iff_eq] at hx
    exact ⟨rfl, rfl, rfl, hx⟩
  · rintro ⟨rfl, rfl, rfl, hentry, hk⟩
    refine ⟨(f.entry, f.index), ?_, rfl⟩
    rw [List.mem_filter, List.mem_zipIdx_iff_getElem?, beq_iff_eq]
    exact ⟨hentry, hk⟩

theorem pairwise_zipIdx {α : Type} (l : List α) : l.zipIdx.Pairwise fun x y => x.2 < y.2 := by
  rw [← List.pairwise_map (f := Prod.snd) (R := (· < ·)), List.zipIdx_map_snd]
  exact List.pairwise_lt_range'

/-- Instructions are found in their order. -/
theorem pairwise_occurrences :
    (occurrences reason k i r).Pairwise fun f g => f.index < g.index :=
  List.pairwise_map.mpr ((pairwise_zipIdx r.instructions).filter _)

/-- In an ordered list the members before the last one are those that another one follows. -/
theorem mem_dropLast_iff {α : Type} {rank : α → Nat} {l : List α}
    (h : l.Pairwise fun a b => rank a < rank b) {a : α} :
    a ∈ l.dropLast ↔ a ∈ l ∧ ∃ b ∈ l, rank a < rank b := by
  rcases List.eq_nil_or_concat l with rfl | ⟨l, last, rfl⟩
  · simp
  · rw [List.concat_eq_append] at h ⊢
    rw [List.pairwise_append] at h
    have hlast : ∀ b ∈ l, rank b < rank last := fun b hb => h.2.2 b hb last List.mem_cons_self
    rw [List.dropLast_concat]
    constructor
    · intro ha
      exact ⟨List.mem_append_left _ ha, last, by simp, hlast a ha⟩
    · rintro ⟨ha, b, hb, hab⟩
      rcases List.mem_append.mp ha with ha | ha
      · exact ha
      · -- nothing follows the last one
        rw [List.mem_singleton.mp ha] at hab
        rcases List.mem_append.mp hb with hb | hb
        · exact absurd hab (Nat.lt_asymm (hlast b hb))
        · rw [List.mem_singleton.mp hb] at hab
          exact absurd hab (Nat.lt_irrefl _)

theorem mem_capitals : f ∈ capitals i r ↔
    (f.reason = .casing ∧ f.stageIndex = i ∧ f.stage = r ∧ f.index = 0 ∧
      r.instructions[0]? = some f.entry) ∧
    ∃ name ∈ r.name, ∃ c ∈ name, 'A' ≤ c ∧ c ≤ 'Z' := by
  have hupper : ∀ c : Char, c.isUpper = true ↔ 'A' ≤ c ∧ c ≤ 'Z' := fun _ => decide_eq_true_iff
  have hname : r.name.any (·.any Char.isUpper) = true ↔
      ∃ name ∈ r.name, ∃ c ∈ name, 'A' ≤ c ∧ c ≤ 'Z' := by
    simp [Option.any_eq_true, hupper]
  rw [capitals, ← hname]
  split
  · rename_i h
    rw [and_iff_left h, Option.mem_toList, Option.map_eq_some_iff]
    constructor
    · rintro ⟨e, he, rfl⟩
      exact ⟨rfl, rfl, rfl, rfl, he⟩
    · obtain ⟨reason, stageIndex, stage, index, entry⟩ := f
      rintro ⟨rfl, rfl, rfl, rfl, he⟩
      exact ⟨entry, he, rfl⟩
  · rename_i h
    exact iff_of_false List.not_mem_nil fun hf => h hf.2

theorem mem_superseded : f ∈ (occurrences (.superseded k) k i r).dropLast ↔
    f ∈ occurrences (.superseded k) k i r ∧
      ∃ j later, f.index < j ∧ r.instructions[j]? = some later ∧ later.keyword = k := by
  rw [mem_dropLast_iff pairwise_occurrences]
  refine and_congr_right fun _ => ⟨?_, ?_⟩
  · rintro ⟨g, hg, hlt⟩
    obtain ⟨-, -, -, hentry, hk⟩ := mem_occurrences.mp hg
    exact ⟨g.index, g.entry, hlt, hentry, hk⟩
  · rintro ⟨j, later, hlt, hentry, hk⟩
    exact ⟨⟨.superseded k, i, r, j, later⟩, mem_occurrences.mpr ⟨rfl, rfl, rfl, hentry, hk⟩, hlt⟩

theorem reason_of_mem_superseded
    (h : f ∈ lastOneWins.flatMap fun k => (occurrences (.superseded k) k i r).dropLast) :
    ∃ k ∈ lastOneWins, f.reason = .superseded k ∧ f.stageIndex = i := by
  obtain ⟨k, hk, h⟩ := List.mem_flatMap.mp h
  obtain ⟨hreason, hi, -⟩ := mem_occurrences.mp (mem_superseded.mp h).1
  exact ⟨k, hk, hreason, hi⟩

theorem mem_lastTriggers : f ∈ lastTriggers rows ↔
    ∃ i r, i + 1 = rows.length ∧ rows[i]? = some r ∧ f ∈ occurrences .trigger .onbuild i r := by
  rw [lastTriggers, List.getLast?_zipIdx, List.getLast?_eq_getElem?, Nat.zero_add]
  constructor
  · intro h
    cases hlast : rows[rows.length - 1]? with
    | none =>
      rw [hlast] at h
      cases h
    | some r =>
      rw [hlast] at h
      have hlength := (List.getElem?_eq_some_iff.mp hlast).1
      exact ⟨rows.length - 1, r, by omega, hlast, h⟩
  · rintro ⟨i, r, hi, hr, hf⟩
    have hlast : rows.length - 1 = i := by omega
    rw [hlast, hr]
    exact hf

theorem Finding.isDue_of_mem_findingsOf (hr : rows[i]? = some r) (h : f ∈ findingsOf i r) :
    f.IsDue rows := by
  rw [findingsOf, List.mem_append, List.mem_append] at h
  rcases h with (h | h) | h
  · obtain ⟨⟨hreason, rfl, rfl, hindex, hentry⟩, hname⟩ := mem_capitals.mp h
    rw [← hindex] at hentry
    rw [IsDue, hreason]
    exact ⟨hr, hentry, hindex, hname⟩
  · obtain ⟨k, hk, h⟩ := List.mem_flatMap.mp h
    obtain ⟨h, hlater⟩ := mem_superseded.mp h
    obtain ⟨hreason, rfl, rfl, hentry, hkeyword⟩ := mem_occurrences.mp h
    rw [IsDue, hreason]
    exact ⟨hr, hentry, hk, hkeyword, hlater⟩
  · obtain ⟨hreason, rfl, rfl, hentry, hkeyword⟩ := mem_occurrences.mp h
    rw [IsDue, hreason]
    exact ⟨hr, hentry, Entry.keyword_eq_maintainer_iff.mp hkeyword⟩

/-- **What is found is what is due.** -/
theorem mem_findings : f ∈ findings rows ↔ f.IsDue rows := by
  rw [findings, List.mem_append, mem_lastTriggers, List.mem_flatMap]
  constructor
  · rintro (⟨x, hx, h⟩ | ⟨i, r, hi, hr, h⟩)
    · exact Finding.isDue_of_mem_findingsOf (List.mem_zipIdx_iff_getElem?.mp hx) h
    · obtain ⟨hreason, rfl, rfl, hentry, hkeyword⟩ := mem_occurrences.mp h
      rw [Finding.IsDue, hreason]
      exact ⟨hr, hentry, hi, Entry.keyword_eq_onbuild_iff.mp hkeyword⟩
  · rintro ⟨hr, hentry, hdue⟩
    have hstage : (f.stage, f.stageIndex) ∈ rows.zipIdx := List.mem_zipIdx_iff_getElem?.mpr hr
    cases hreason : f.reason with
    | casing =>
      rw [hreason] at hdue
      refine .inl ⟨_, hstage, List.mem_append_left _ (List.mem_append_left _ ?_)⟩
      rw [hdue.1] at hentry
      exact mem_capitals.mpr ⟨⟨hreason, rfl, rfl, hdue.1, hentry⟩, hdue.2⟩
    | superseded k =>
      rw [hreason] at hdue
      refine .inl ⟨_, hstage, List.mem_append_left _ (List.mem_append_right _ ?_)⟩
      exact List.mem_flatMap.mpr ⟨k, hdue.1, mem_superseded.mpr
        ⟨mem_occurrences.mpr ⟨hreason, rfl, rfl, hentry, hdue.2.1⟩, hdue.2.2⟩⟩
    | deprecated =>
      rw [hreason] at hdue
      refine .inl ⟨_, hstage, List.mem_append_right _ (mem_occurrences.mpr ?_)⟩
      exact ⟨hreason, rfl, rfl, hentry, Entry.keyword_eq_maintainer_iff.mpr hdue⟩
    | trigger =>
      rw [hreason] at hdue
      refine .inr ⟨_, _, hdue.1, hr, mem_occurrences.mpr ?_⟩
      exact ⟨hreason, rfl, rfl, hentry, Entry.keyword_eq_onbuild_iff.mpr hdue.2⟩

/-! ### They are what is reported -/

/-- The warnings of findings that are not skipped. -/
def kept (skipped : List Text) (fs : List Finding) : List Diagnostic :=
  (fs.map Finding.warning).filter fun d => !isSkipped skipped d.code

theorem kept_append (fs gs : List Finding) :
    kept skipped (fs ++ gs) = kept skipped fs ++ kept skipped gs := by
  rw [kept, List.map_append, List.filter_append]
  rfl

theorem kept_flatMap {α : Type} (l : List α) (g : α → List Finding) :
    kept skipped (l.flatMap g) = l.flatMap fun a => kept skipped (g a) := by
  rw [kept, List.map_flatMap, List.filter_flatMap]
  rfl

theorem kept_nil (fs : List Finding) : kept [] fs = fs.map Finding.warning :=
  List.filter_eq_self.mpr fun d _ => by rw [isSkipped_nil, Bool.not_false]

/-- What a rule finds is kept or skipped as a whole. -/
theorem guarded_eq_kept (rule : Rule) (h : ∀ f ∈ fs, f.reason.code = rule.name) :
    rule.guarded skipped (fs.map Finding.warning) = kept skipped fs := by
  have henabled : ∀ d ∈ fs.map Finding.warning,
      (!isSkipped skipped d.code) = rule.enabled skipped := by
    intro d hd
    obtain ⟨f, hf, rfl⟩ := List.mem_map.mp hd
    rw [enabled_eq, ← h f hf]
    rfl
  rw [Rule.guarded, kept, List.filter_congr henabled]
  cases rule.enabled skipped <;> simp

theorem map_occurrences {g : Entry → Diagnostic}
    (h : ∀ j e, (⟨reason, i, r, j, e⟩ : Finding).warning = g e) :
    (occurrences reason k i r).map Finding.warning =
      (r.instructions.filter (·.keyword == k)).map g := by
  have hentries : r.instructions.filter (·.keyword == k) =
      (r.instructions.zipIdx.filter (·.1.keyword == k)).map Prod.fst := by
    conv_lhs => rw [← List.zipIdx_map_fst 0 r.instructions, List.filter_map]
    rfl
  rw [hentries, occurrences, List.map_map, List.map_map]
  exact List.map_congr_left fun x _ => h x.2 x.1

theorem map_superseded :
    (lastOneWins.flatMap fun k => (occurrences (.superseded k) k i r).dropLast).map
        Finding.warning =
      lastOneWins.flatMap r.superseded := by
  rw [List.map_flatMap]
  refine List.flatMap_congr fun k _ => ?_
  rw [Row.superseded, List.map_dropLast, List.map_dropLast]
  exact congrArg List.dropLast (map_occurrences fun _ _ => rfl)

/-- A stage with an instruction has a first one to warn about. -/
theorem casing_eq (hr : r.instructions ≠ []) :
    r.casing = .ok ((capitals i r).map Finding.warning) := by
  obtain ⟨e, rest, hentries⟩ := List.exists_cons_of_ne_nil hr
  rw [Row.casing, capitals, hentries]
  cases hname : r.name with
  | none => rfl
  | some name =>
    have htitle : r.title = name := by rw [Row.title, hname, Option.getD_some]
    rw [Option.any_some]
    dsimp only
    split
    · simp [Finding.warning, Finding.message, Reason.code, Rule.warn, Rule.name, Diagnostic.warning,
        htitle]
    · rfl

/-- **A stage is warned about its findings that are not skipped.** -/
theorem lint_eq (i : Nat) (hr : r.instructions ≠ []) :
    r.lint skipped = .ok (kept skipped (findingsOf i r)) := by
  have hcasing : (if Rule.stageNameCasing.enabled skipped then
      (capitals i r).map Finding.warning else []) = kept skipped (capitals i r) :=
    guarded_eq_kept .stageNameCasing fun f hf => congrArg Reason.code (mem_capitals.mp hf).1.1
  have hsuperseded : Rule.multipleInstructionsDisallowed.guarded skipped
      (lastOneWins.flatMap r.superseded) =
      kept skipped (lastOneWins.flatMap fun k => (occurrences (.superseded k) k i r).dropLast) := by
    rw [← map_superseded]
    refine guarded_eq_kept _ fun f hf => ?_
    obtain ⟨k, -, hreason, -⟩ := reason_of_mem_superseded hf
    exact congrArg Reason.code hreason
  have hwarnings : (occurrences .deprecated .maintainer i r).map Finding.warning =
      (r.instructions.filter (·.keyword == .maintainer)).map fun e => Rule.maintainerDeprecated.warn
        "MAINTAINER is deprecated; use LABEL maintainer=... instead" e.lines :=
    map_occurrences fun _ _ => rfl
  have hdeprecated : Rule.maintainerDeprecated.guarded skipped
      ((occurrences .deprecated .maintainer i r).map Finding.warning) =
      kept skipped (occurrences .deprecated .maintainer i r) :=
    guarded_eq_kept _ fun f hf => congrArg Reason.code (mem_occurrences.mp hf).1
  rw [Row.lint, casing_eq (i := i) hr, findingsOf, kept_append, kept_append, ← hcasing, hsuperseded,
    ← hwarnings, hdeprecated]
  split
  · rfl
  · rfl

theorem map_lastTriggers :
    (lastTriggers rows).map Finding.warning = (rows.getLast?.map Row.triggers).getD [] := by
  rw [lastTriggers, List.getLast?_zipIdx]
  cases rows.getLast? with
  | none => rfl
  | some r => exact map_occurrences fun _ _ => rfl

/-- Each stage is linted for itself. -/
theorem mapM_lint (hrows : ∀ r ∈ rows, r.instructions ≠ []) (n : Nat) :
    rows.mapM (Row.lint skipped) =
      .ok ((rows.zipIdx n).map fun x => kept skipped (findingsOf x.2 x.1)) := by
  induction rows generalizing n with
  | nil => rfl
  | cons r rows ih =>
    rw [List.forall_mem_cons] at hrows
    rw [List.mapM_cons, lint_eq n hrows.1, ih hrows.2 (n + 1)]
    rfl

/-- **Stages with instructions are warned about their findings that are not skipped.** -/
theorem lintAll_eq (hrows : ∀ r ∈ rows, r.instructions ≠ []) :
    Row.lintAll skipped rows = .ok (kept skipped (findings rows)) := by
  have htriggers : Rule.onbuildInFinalStage.guarded skipped
      ((rows.getLast?.map Row.triggers).getD []) = kept skipped (lastTriggers rows) := by
    rw [← map_lastTriggers]
    refine guarded_eq_kept _ fun f hf => ?_
    obtain ⟨i, r, -, -, hf⟩ := mem_lastTriggers.mp hf
    exact congrArg Reason.code (mem_occurrences.mp hf).1
  rw [Row.lintAll, mapM_lint hrows 0, findings, kept_append, kept_flatMap, List.flatMap_def,
    ← htriggers]
  rfl

/-- The stages of a file, each of which has its FROM. -/
theorem run_eq (skipped : List Text) (stages : List Stage) :
    run skipped stages = kept skipped (findings (stages.map Stage.row)) := by
  have hrows : ∀ r ∈ stages.map Stage.row, r.instructions ≠ [] := by
    intro r hr
    obtain ⟨s, -, rfl⟩ := List.mem_map.mp hr
    exact List.cons_ne_nil _ _
  have hall : Row.lintAll skipped (stages.map Stage.row) =
      .ok (kept skipped (findings (stages.map Stage.row))) := lintAll_eq hrows
  rw [Row.lintAll_stages] at hall
  exact Except.ok.inj hall

/-- Everything that the rules find is a warning. -/
theorem isError_of_mem_run {x : Diagnostic} (h : x ∈ run skipped stages) : x.isError = false := by
  rw [run_eq] at h
  obtain ⟨f, -, rfl⟩ := List.mem_map.mp (List.mem_filter.mp h).1
  rfl

/-! ### They are in order -/

theorem Finding.key_lt_of_index {g : Finding} (hreason : f.reason = g.reason)
    (hstage : f.stageIndex = g.stageIndex) (h : f.index < g.index) : f.key < g.key := by
  simp [key, List.cons_lt_cons_iff, hreason, hstage, h]

theorem Finding.key_lt_of_rank {g : Finding} (hstage : f.stageIndex = g.stageIndex)
    (h : f.reason.rank < g.reason.rank) : f.key < g.key := by
  have hlast : ∀ reason : Reason, reason.rank ≤ Reason.trigger.rank := by
    intro reason
    cases reason with
    | superseded k => cases k <;> decide
    | _ => decide
  -- a trigger has the highest rank, so nothing comes behind it
  have htrigger : f.reason ≠ .trigger := fun hf => by
    rw [hf] at h
    exact absurd h (Nat.not_lt.mpr (hlast g.reason))
  by_cases hg : g.reason = .trigger <;> simp [key, List.cons_lt_cons_iff, htrigger, hstage, h, hg]

theorem Finding.key_lt_of_stage {g : Finding} (hf : f.reason ≠ .trigger) (hg : g.reason ≠ .trigger)
    (h : f.stageIndex < g.stageIndex) : f.key < g.key := by
  simp [key, List.cons_lt_cons_iff, hf, hg, h]

theorem Finding.key_lt_of_trigger {g : Finding} (hf : f.reason ≠ .trigger)
    (hg : g.reason = .trigger) :
    f.key < g.key := by
  simp [key, List.cons_lt_cons_iff, hf, hg]

theorem pairwise_key_occurrences :
    (occurrences reason k i r).Pairwise fun f g => f.key < g.key := by
  refine pairwise_occurrences.imp_of_mem fun hf hg hlt => ?_
  obtain ⟨hf, hfi, -⟩ := mem_occurrences.mp hf
  obtain ⟨hg, hgi, -⟩ := mem_occurrences.mp hg
  exact Finding.key_lt_of_index (hf.trans hg.symm) (hfi.trans hgi.symm) hlt

theorem pairwise_key_capitals : (capitals i r).Pairwise fun f g => f.key < g.key := by
  rw [capitals]
  split
  · cases r.instructions[0]? with
    | none => exact .nil
    | some e => exact List.pairwise_singleton ..
  · exact .nil

theorem pairwise_key_superseded :
    (lastOneWins.flatMap fun k => (occurrences (.superseded k) k i r).dropLast).Pairwise
      fun f g => f.key < g.key := by
  have hranks : lastOneWins.Pairwise fun k l =>
      (Reason.superseded k).rank < (Reason.superseded l).rank := by decide
  rw [List.pairwise_flatMap]
  refine ⟨fun k _ => pairwise_key_occurrences.sublist (List.dropLast_sublist _),
    hranks.imp fun hlt f hf g hg => ?_⟩
  obtain ⟨hf, hfi, -⟩ := mem_occurrences.mp (mem_superseded.mp hf).1
  obtain ⟨hg, hgi, -⟩ := mem_occurrences.mp (mem_superseded.mp hg).1
  exact Finding.key_lt_of_rank (hfi.trans hgi.symm) (by rwa [hf, hg])

theorem pairwise_key_findingsOf : (findingsOf i r).Pairwise fun f g => f.key < g.key := by
  have hwins : ∀ k ∈ lastOneWins, Reason.casing.rank < (Reason.superseded k).rank ∧
      (Reason.superseded k).rank < Reason.deprecated.rank := by decide
  have hcasing : Reason.casing.rank < Reason.deprecated.rank := by decide
  rw [findingsOf, List.pairwise_append, List.pairwise_append]
  refine ⟨⟨pairwise_key_capitals, pairwise_key_superseded, ?_⟩, pairwise_key_occurrences, ?_⟩
  · intro f hf g hg
    obtain ⟨⟨hf, hfi, -⟩, -⟩ := mem_capitals.mp hf
    obtain ⟨k, hk, hg, hgi⟩ := reason_of_mem_superseded hg
    exact Finding.key_lt_of_rank (hfi.trans hgi.symm) (by rw [hf, hg]; exact (hwins k hk).1)
  · intro f hf g hg
    obtain ⟨hg, hgi, -⟩ := mem_occurrences.mp hg
    rcases List.mem_append.mp hf with hf | hf
    · obtain ⟨⟨hf, hfi, -⟩, -⟩ := mem_capitals.mp hf
      exact Finding.key_lt_of_rank (hfi.trans hgi.symm) (by rw [hf, hg]; exact hcasing)
    · obtain ⟨k, hk, hf, hfi⟩ := reason_of_mem_superseded hf
      exact Finding.key_lt_of_rank (hfi.trans hgi.symm) (by rw [hf, hg]; exact (hwins k hk).2)

theorem of_mem_findingsOf (h : f ∈ findingsOf i r) : f.reason ≠ .trigger ∧ f.stageIndex = i := by
  rw [findingsOf, List.mem_append, List.mem_append] at h
  rcases h with (h | h) | h
  · obtain ⟨⟨hreason, hi, -⟩, -⟩ := mem_capitals.mp h
    exact ⟨by simp [hreason], hi⟩
  · obtain ⟨k, -, hreason, hi⟩ := reason_of_mem_superseded h
    exact ⟨by simp [hreason], hi⟩
  · obtain ⟨hreason, hi, -⟩ := mem_occurrences.mp h
    exact ⟨by simp [hreason], hi⟩

theorem pairwise_key_lastTriggers : (lastTriggers rows).Pairwise fun f g => f.key < g.key := by
  rw [lastTriggers]
  cases rows.zipIdx.getLast? with
  | none => exact .nil
  | some x => exact pairwise_key_occurrences

/-- **Findings are in the order of their keys**, so each is there once. -/
theorem pairwise_key_findings : (findings rows).Pairwise fun f g => f.key < g.key := by
  rw [findings, List.pairwise_append, List.pairwise_flatMap]
  refine ⟨⟨fun x _ => pairwise_key_findingsOf, (pairwise_zipIdx rows).imp fun hlt f hf g hg => ?_⟩,
    pairwise_key_lastTriggers, fun f hf g hg => ?_⟩
  · obtain ⟨hf, hfi⟩ := of_mem_findingsOf hf
    obtain ⟨hg, hgi⟩ := of_mem_findingsOf hg
    exact Finding.key_lt_of_stage hf hg (by rwa [hfi, hgi])
  · obtain ⟨x, -, hf⟩ := List.mem_flatMap.mp hf
    obtain ⟨i, s, -, -, hg⟩ := mem_lastTriggers.mp hg
    exact Finding.key_lt_of_trigger (of_mem_findingsOf hf).1 (mem_occurrences.mp hg).1

/-! ## The law -/

/-- The lints of the stages of a file are exact too. -/
theorem run_exact (skipped : List Text) (stages : List Stage) :
    run skipped stages = (run [] stages).filter (fun d => !isSkipped skipped d.code) ∧
      ∃ fs : List Finding, run [] stages = fs.map Finding.warning ∧
        fs.Pairwise (fun f g => f.key < g.key) ∧ ∀ f, f ∈ fs ↔ f.IsDue (stages.map Stage.row) := by
  have hall : run [] stages = (findings (stages.map Stage.row)).map Finding.warning := by
    rw [run_eq, kept_nil]
  refine ⟨?_, findings (stages.map Stage.row), hall, pairwise_key_findings, fun _ => mem_findings⟩
  rw [hall, run_eq]
  rfl

/-- **Lints are exact, and skipping is a filter.**  Of stages with an instruction each, the warnings
without rules skipped are those of all findings that are due and of no others, each reported once,
in the order of their keys.  With rules skipped, they are those of them whose code is not skipped,
in the same order.  The stages of a file are linted like their rows. -/
theorem rows_exact (skipped : List Text) (rows : List Row)
    (hrows : ∀ r ∈ rows, r.instructions ≠ []) :
    (∃ fs : List Finding,
      Row.lintAll [] rows = .ok (fs.map Finding.warning) ∧
        Row.lintAll skipped rows =
          .ok ((fs.map Finding.warning).filter fun d => !isSkipped skipped d.code) ∧
        fs.Pairwise (fun f g => f.key < g.key) ∧ ∀ f, f ∈ fs ↔ f.IsDue rows) ∧
      ∀ stages : List Stage,
        Row.lintAll skipped (stages.map Stage.row) = .ok (run skipped stages) := by
  refine ⟨⟨findings rows, ?_, lintAll_eq hrows, pairwise_key_findings, fun _ => mem_findings⟩,
    Row.lintAll_stages skipped⟩
  rw [lintAll_eq hrows, kept_nil]

/-- Two stages, whose names and first instructions do not belong together. -/
theorem rows_exact_eachReason :
    let step : Step → Nat → Entry := fun s line => ⟨.step s, .single line⟩
    let build : Row := ⟨0, some "Build".toList, .scratch,
      [⟨.maintainer "a".toList, .single 1⟩, step (.cmd (.shell "a".toList)) 2,
        step (.cmd (.shell "b".toList)) 3, ⟨.onbuild (.user "a".toList none), .single 4⟩], []⟩
    let last : Row := ⟨1, none, .scratch,
      [step (.entrypoint (.shell "a".toList)) 5, step (.healthcheck none) 6,
        step (.healthcheck none) 7, step (.entrypoint (.shell "b".toList)) 8,
        ⟨.onbuild (.user "a".toList none), .single 9⟩], []⟩
    let superseded : String → String → Nat → Diagnostic := fun keyword name line =>
      ⟨.warning, "MultipleInstructionsDisallowed", "multiple " ++ keyword ++
        " instructions in stage " ++
        name ++ "; only the last one takes effect", some (.single line)⟩
    let casing : Diagnostic := ⟨.warning, "StageNameCasing",
      "stage name 'Build' should be lowercase", some (.single 1)⟩
    let deprecated : Diagnostic := ⟨.warning, "MaintainerDeprecated",
      "MAINTAINER is deprecated; use LABEL maintainer=... instead", some (.single 1)⟩
    let trigger : Diagnostic := ⟨.warning, "OnbuildInFinalStage",
      "ONBUILD in the final stage only runs when another build uses this image", some (.single 9)⟩
    Row.lintAll [] [build, last] = .ok [casing, superseded "CMD" "Build" 2, deprecated,
        superseded "ENTRYPOINT" "1" 5, superseded "HEALTHCHECK" "1" 6, trigger] ∧
      Row.lintAll ["stageNAMEcasing".toList, "OnbuildInFinalStage".toList] [build, last] =
        .ok [superseded "CMD" "Build" 2, deprecated, superseded "ENTRYPOINT" "1" 5,
          superseded "HEALTHCHECK" "1" 6] ∧
      Row.lintAll ["All".toList] [build, last] = .ok [] := by
  intro step build last superseded casing deprecated trigger
  have hrows : ∀ r ∈ [build, last], r.instructions ≠ [] := by decide
  obtain ⟨⟨fs, hall, hsome, -⟩, -⟩ :=
    rows_exact ["stageNAMEcasing".toList, "OnbuildInFinalStage".toList] [build, last] hrows
  obtain ⟨⟨gs, hgs, hnone, -⟩, -⟩ := rows_exact ["All".toList] [build, last] hrows
  have hfound : Row.lintAll [] [build, last] = .ok [casing, superseded "CMD" "Build" 2, deprecated,
      superseded "ENTRYPOINT" "1" 5, superseded "HEALTHCHECK" "1" 6, trigger] := by decide +kernel
  refine ⟨hfound, ?_, ?_⟩
  · rw [hsome, ← Except.ok.inj (hfound.symm.trans hall)]
    decide +kernel
  · rw [hnone, ← Except.ok.inj (hfound.symm.trans hgs)]
    decide +kernel

end Lint

end Containerfile
