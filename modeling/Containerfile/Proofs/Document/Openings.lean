import Containerfile.Proofs.Document.WellFormed
import Containerfile.Proofs.Grammar.Contexts
import Containerfile.Proofs.Grammar.Unnumbered

/-! # What FROM sees

FROM fills in the variables that were declared before the first stage and no others, in the value of
its flag, in the image and in the defaults inside a reference.  So of a context it sees the ground
alone, which is what is left of it without its stages (`Context.ground`,
`Grammar.instruction_of_ground`).

Nothing in a stage changes the ground (`Progress.Handled.ground`).  Which stages follow is therefore
settled by the texts of the FROMs to come and the stages so far: `Grammar.follow` opens a stage, and
every line is followed in this way, whatever it is (`Progress.openings_of_advance`).  A line that is
no FROM opens nothing, so only the FROMs are left of a whole reading
(`Progress.openings_of_takeAll`).

Main statement: `Document.openings_of_ground`. -/
namespace Containerfile

/-- A scope without its stages. -/
def Scope.ground (sc : Scope) : Scope := { escape := sc.escape, global := sc.global }

/-- What FROM sees of a context. -/
def Context.ground (cx : Context) : Context :=
  { escape := cx.escape, scope := cx.scope.map Scope.ground, aliases := [], deferred := false }

theorem Context.ground_ground (cx : Context) : cx.ground.ground = cx.ground := by
  rw [ground, ground, Option.map_map]
  rfl

/-- Whether a text begins with FROM. -/
def opensStage (t : Text) : Bool := Keyword.read? (Text.firstWord t).1 == some .fromImage

namespace Grammar

variable {cx cx' : Context} {s : Statement} {l l' : LogicalLine} {base : BaseImage} {t : Text}

/-! ## FROM -/

/-- On the same ground the same is filled in for FROM. -/
theorem alike_of_ground (h : cx'.ground = cx.ground) :
    Alike .globalOnly (fun _ => True) (fun _ => True) cx cx' := by
  obtain ⟨escape, scope, aliases, deferred⟩ := cx
  obtain ⟨escape', scope', aliases', deferred'⟩ := cx'
  rw [Context.ground, Context.ground, Context.mk.injEq] at h
  obtain ⟨hescape, hscope, -⟩ := h
  refine ⟨hescape, fun _ _ => trivial, fun {t} _ mode => ?_, fun _ _ _ _ => trivial⟩
  rcases scope with _ | sc
  · rcases scope' with _ | sc'
    · rfl
    · cases hscope
  · rcases scope' with _ | sc'
    · cases hscope
    · have hground : sc'.ground = sc.ground := Option.some.inj hscope
      have hfills : ∀ scope : Scope,
        filling ⟨escape, some scope, aliases, deferred⟩ .globalOnly mode t =
          scope.ground.expandGlobal t := fun _ => rfl
      exact (hfills sc').trans ((congrArg (Scope.expandGlobal · t) hground).trans (hfills sc).symm)

theorem instruction_fromImage (hs : s.keyword = .fromImage) :
    instruction s = .fromImage <$> fromImage s := by
  unfold instruction
  rw [hs]

/-- **FROM is read in the same way on the same ground**, failures and undeclared names included. -/
theorem instruction_of_ground (hs : s.keyword = .fromImage) (h : cx'.ground = cx.ground) :
    instruction s cx' = instruction s cx := by
  have hwithin : s.Within fun _ => True := ⟨fun _ _ _ _ => trivial, trivial, fun _ _ _ _ => trivial⟩
  rw [instruction_fromImage hs]
  exact (same_map _ (same_fromImage (alike_of_ground h) hwithin)).1

/-- A FROM is also read in the same way wherever it stands. -/
theorem fromImage_of_ground (h : cx'.ground = cx.ground) (htext : l'.text = l.text)
    (hl : (line l cx).result = .ok (.fromImage base)) :
    (line l' cx').result = .ok (.fromImage base) := by
  obtain ⟨s, hs, hresult⟩ := ok_of_bind hl
  rw [ofExcept_run] at hs
  have hkeyword : s.keyword = .fromImage := (takes_instruction _ hresult).1.symm
  have hmoved : Statement.ofLine l' = .ok (s.moved l'.lines l'.heredocs) := by
    rw [Statement.ofLine, htext]
    exact Statement.read_moved hs
  rw [← instruction_of_ground hkeyword h, instruction_fromImage hkeyword] at hresult
  rw [line_of_read hmoved]
  have hmovedKeyword : (s.moved l'.lines l'.heredocs).keyword = .fromImage := hkeyword
  rw [instruction_fromImage hmovedKeyword]
  obtain ⟨i, hi, rfl⟩ := agree_map_eq (agree_fromImage s l'.lines) _ hresult
  exact hi

/-- The FROM that a text is read as, if it is one and can be read. -/
def base? (cx : Context) (t : Text) : Option BaseImage :=
  match (line ⟨.single 0, [], t, []⟩ cx).result with
  | .ok (.fromImage base) => some base
  | _ => none

theorem base?_eq_some_iff :
    base? cx t = some base ↔ (line ⟨.single 0, [], t, []⟩ cx).result = .ok (.fromImage base) := by
  rw [base?]
  split
  · rename_i found hfound
    rw [hfound, Option.some.injEq, Except.ok.injEq, Instruction.fromImage.injEq]
  · rename_i hnone
    constructor
    · intro h
      cases h
    · exact fun h => absurd h (hnone base)

/-- **What a line opens is settled by its text and the ground.** -/
theorem base?_ground :
    base? cx.ground l.text = some base ↔ (line l cx).result = .ok (.fromImage base) := by
  rw [base?_eq_some_iff]
  exact ⟨fromImage_of_ground cx.ground_ground.symm rfl, fromImage_of_ground cx.ground_ground rfl⟩

/-- Only a FROM opens a stage. -/
theorem base?_of_opensStage (h : opensStage t = false) : base? cx t = none := by
  rw [Option.eq_none_iff_forall_ne_some]
  intro base hbase
  have hkeyword := keyword_line _ (base?_eq_some_iff.mp hbase)
  rw [opensStage, hkeyword] at h
  cases h

end Grammar

/-- A FROM without its name, if that is taken. -/
def BaseImage.amid (names : Aliases) (base : BaseImage) : BaseImage :=
  if base.stageName.any fun name => (names.position name).isSome then
    { base with stageName := none }
  else base

namespace Grammar

/-- The stages after a text, if it is a FROM that can be read. -/
def follow (cx : Context) (openings : List BaseImage) (t : Text) : List BaseImage :=
  openings ++ ((base? cx t).map (BaseImage.amid (openings.map BaseImage.stageName))).toList

/-- A line that is no FROM, or cannot be read, opens nothing. -/
theorem follow_of_not_from {openings : List BaseImage}
    (h : ∀ base, (line l cx).result ≠ .ok (.fromImage base)) :
    follow cx.ground openings l.text = openings := by
  have hnone : base? cx.ground l.text = none := by
    rw [Option.eq_none_iff_forall_ne_some]
    exact fun base hbase => h base (base?_ground.mp hbase)
  rw [follow, hnone, Option.map_none, Option.toList_none, List.append_nil]

/-- A FROM that can be read opens its stage. -/
theorem follow_of_from {openings : List BaseImage}
    (h : (line l cx).result = .ok (.fromImage base)) :
    follow cx.ground openings l.text =
      openings ++ [base.amid (openings.map BaseImage.stageName)] := by
  rw [follow, base?_ground.mpr h]
  rfl

/-- Of all texts only the FROMs matter. -/
theorem foldl_follow_filter (cx : Context) (openings : List BaseImage) (ts : List Text) :
    (ts.filter opensStage).foldl (follow cx) openings = ts.foldl (follow cx) openings := by
  induction ts generalizing openings with
  | nil => rfl
  | cons t ts ih =>
    cases ht : opensStage t with
    | true => rw [List.filter_cons_of_pos ht, List.foldl_cons, List.foldl_cons, ih]
    | false =>
      have hnothing : follow cx openings t = openings := by
        rw [follow, base?_of_opensStage ht, Option.map_none, Option.toList_none, List.append_nil]
      rw [List.filter_cons_of_neg (by rw [ht]; exact Bool.false_ne_true), List.foldl_cons, hnothing,
        ih]

end Grammar

/-! ## The ground under the stages -/

namespace Scope

variable {sc : Scope} {b : Binding}

/-- A binding that is made in a stage is not part of the ground. -/
theorem ground_bind (hs : sc.stages ≠ .empty) :
    (sc.bind b).ground = sc.ground ∧ (sc.bind b).stages ≠ .empty := by
  rw [bind]
  split
  · rename_i hempty
    exact absurd hempty hs
  · rename_i settled current hwriting
    rw [hwriting]
    exact ⟨rfl, fun hempty => by cases hempty⟩

end Scope

namespace Progress

variable {settings : Settings} {p q r : Progress} {index : Nat} {e : Entry} {t : Trace}
  {l : LogicalLine} {ls : List LogicalLine} {base : BaseImage} {a : Assembly}

theorem ground_declare {sc : Scope} (hs : sc.stages ≠ .empty) (index : Nat) (i : Instruction) :
    (declare sc index i).ground = sc.ground := by
  refine (declare_invariant (I := fun r => r.ground = sc.ground ∧ r.stages ≠ .empty) ?_ ?_
    ⟨rfl, hs⟩).1
  · rintro args - a - r ⟨hr, hstages⟩
    obtain ⟨hground, hopen⟩ := Scope.ground_bind hstages
    exact ⟨hground.trans hr, hopen⟩
  · rintro vars - v - r ⟨hr, hstages⟩
    obtain ⟨hground, hopen⟩ := Scope.ground_bind hstages
    exact ⟨hground.trans hr, hopen⟩

/-- The FROMs of the stages so far. -/
def openings (p : Progress) : List BaseImage := p.assembly.heads.map Stage.opening

theorem hasStage_iff_openings : p.assembly.hasStage = true ↔ p.openings ≠ [] := by
  rw [Assembly.hasStage_iff, openings, ne_eq, ne_eq, List.map_eq_nil_iff, Assembly.heads,
    List.map_eq_nil_iff, Draft.size, List.length_eq_zero_iff]

theorem aliases_eq_openings (p : Progress) :
    p.assembly.aliases = p.openings.map BaseImage.stageName := by
  rw [Assembly.aliases_eq, openings, List.map_map]
  rfl

/-- **In a stage no line changes the ground.** -/
theorem Handled.ground (h : Handled settings p t q) (hp : p.WellFormed) (hstage : p.openings ≠ []) :
    q.scope.ground = p.scope.ground := by
  have hopen : p.scope.stages ≠ .empty := by
    intro hempty
    have hsize := hp.inStep
    rw [hempty] at hsize
    exact Assembly.hasStage_iff.mp (hasStage_iff_openings.mpr hstage) hsize.symm
  rcases h.landed with ⟨-, rfl⟩ | ⟨e, -, -, hq⟩
  · rfl
  · cases hq with
    | opens hi ha => rfl
    | declares hi hnone hk =>
      rw [← Bool.not_eq_true] at hnone
      exact absurd (hasStage_iff_openings.mpr hstage) hnone
    | joins hi ha => exact ground_declare hopen _ _

/-! ## Stages that follow -/

/-- A stage that is opened comes last. -/
theorem openings_opened {lines : LineSpan} (ha : p.assembly.openStage base lines = .ok a) :
    (p.opened a).openings = p.openings ++ [base] := by
  show a.heads.map Stage.opening = _
  rw [Assembly.heads_of_openStage ha, List.map_append]
  rfl

theorem any_of_takenName? :
    (base.stageName.any fun name =>
        (Aliases.position (p.openings.map BaseImage.stageName) name).isSome) =
      (p.assembly.takenName? base).isSome := by
  rw [← aliases_eq_openings, Assembly.takenName?]
  cases base.stageName with
  | none => rfl
  | some name =>
    rw [Option.any_some, Option.filter]
    cases (p.assembly.aliases.position name).isSome with
    | true => rfl
    | false => rfl

/-- A FROM that was read opens its stage, without its name if that is taken. -/
theorem openings_of_openStage {lines : LineSpan}
    (h : settle settings (p.openStage settings base lines) = (q, none)) :
    q.openings = p.openings ++ [base.amid (p.openings.map BaseImage.stageName)] := by
  rw [BaseImage.amid, any_of_takenName?]
  rcases openStage_cases settings p base lines with
    ⟨a, ha, hopen⟩ | ⟨f, hf, -, ⟨hs, hopen⟩ | ⟨hs, a, hopen, ha⟩⟩
  · rw [hopen] at h
    cases h
    rw [(Assembly.openStage_eq_ok_iff.mp ha).1]
    exact openings_opened ha
  · rw [hopen] at h
    have hrecover : p.recover settings f = (q, none) := h
    rw [recover_eq_iff, hs] at hrecover
    cases hrecover.1
  · rw [hopen] at h
    cases h
    obtain ⟨name, hname, -⟩ := failure_of_openStage hf
    rw [hname]
    exact openings_opened ha

/-- **A line opens the stage that its text comes to**, if any: nothing else on the way to it
matters. -/
theorem openings_of_advance (hstage : p.openings ≠ []) (h : p.advance settings l = (q, none)) :
    q.openings = Grammar.follow (p.context settings).ground p.openings l.text := by
  rw [advance, take_eq, absorb] at h
  rcases hresult : (Grammar.line l (p.context settings)).result with f | i
  · have hfailed : ∀ base,
      (Grammar.line l (p.context settings)).result ≠ .ok (.fromImage base) := by
      intro base hbase
      rw [hresult] at hbase
      cases hbase
    simp only [hresult] at h
    obtain ⟨-, -, rfl⟩ := recover_eq_iff.mp h
    exact (Grammar.follow_of_not_from hfailed).symm
  · simp only [hresult] at h
    by_cases hbase : ∃ base, i = .fromImage base
    · obtain ⟨base, rfl⟩ := hbase
      rw [Grammar.follow_of_from hresult]
      have hopen : settle settings
        ((p.past (p.warnings settings l)).openStage settings base l.lines) =
          (q, none) := h
      exact openings_of_openStage (p := p.past (p.warnings settings l)) hopen
    · have hother : ∀ base,
        (Grammar.line l (p.context settings)).result ≠ .ok (.fromImage base) := by
        intro base hopens
        rw [hresult] at hopens
        exact hbase ⟨base, Except.ok.inj hopens⟩
      -- in a stage every other instruction has a place
      obtain ⟨a, ha⟩ : ∃ a, p.assembly.push ⟨i, l.lines⟩ = .ok a :=
        ⟨_, Assembly.push_eq_ok_iff.mpr ⟨hasStage_iff_openings.mpr hstage, rfl⟩⟩
      rw [place_of_not_from settings _ (fun base hi => hbase ⟨base, hi⟩)] at h
      simp only [report, ha, hasStage_iff_openings.mpr hstage] at h
      cases h
      rw [Grammar.follow_of_not_from hother]
      exact congrArg (List.map Stage.opening) (Assembly.heads_of_push ha)

/-! ## Whole readings -/

theorem ground_context (h : q.scope.ground = p.scope.ground) :
    (q.context settings).ground = (p.context settings).ground := by
  have hescape : q.scope.ground.escape = p.scope.ground.escape := congrArg Scope.escape h
  rw [context, context, Context.ground, Context.ground, Context.mk.injEq]
  refine ⟨hescape, ?_, rfl, rfl⟩
  cases settings.expandVariables with
  | true => exact congrArg some h
  | false => rfl

/-- **Lines in stages open the stages that their FROMs come to**, each in the light of the ground
and of the stages before it. -/
theorem openings_of_takeAll (hp : p.WellFormed) (hstage : p.openings ≠ [])
    (h : p.takeAll settings ls = (r, none)) :
    r.openings = ((ls.map LogicalLine.text).filter opensStage).foldl
      (Grammar.follow (p.context settings).ground) p.openings := by
  rw [Grammar.foldl_follow_filter]
  induction ls generalizing p with
  | nil =>
    cases h
    rfl
  | cons l ls ih =>
    rw [takeAll_cons] at h
    rcases hq : p.advance settings l with ⟨q, _ | f⟩
    · rw [hq] at h
      have hopen := openings_of_advance hstage hq
      obtain ⟨t, -, ht⟩ := handled_of_advance hq
      have hmore : q.openings ≠ [] := by
        rw [hopen, Grammar.follow]
        exact List.append_ne_nil_of_left_ne_nil hstage _
      rw [List.map_cons, List.foldl_cons, ← hopen, ← ground_context (ht.ground hp hstage)]
      exact ih (ht.wellFormed hp) hmore h
    · rw [hq] at h
      cases h

/-- Lines that are taken to their end are taken up to any place among them. -/
theorem takeAll_append {before after : List LogicalLine}
    (h : p.takeAll settings (before ++ after) = (r, none)) :
    ∃ q, p.takeAll settings before = (q, none) ∧ q.takeAll settings after = (r, none) := by
  induction before generalizing p with
  | nil => exact ⟨p, rfl, h⟩
  | cons l before ih =>
    rw [List.cons_append, takeAll_cons] at h
    rw [takeAll_cons]
    rcases hq : p.advance settings l with ⟨q, _ | f⟩
    · rw [hq] at h
      exact ih h
    · rw [hq] at h
      cases h

end Progress

namespace Document

variable {settings : Settings} {texts : List Text} {d : Document} {before after : List LogicalLine}

theorem openings_final (p : Progress) (directives : Directives) :
    (p.final directives).stages.map Stage.opening = p.openings := by
  rw [Progress.stages_final, Progress.openings, ← Assembly.map_head_finish _ p.scope, List.map_map]
  rfl

/-- The stages of a document, from a place on where one is open. -/
theorem openings_of_readLines (h : readLines settings texts = .ok d)
    (hlines : (Layout.read settings.escapeDirective texts).lines = before ++ after) :
    ∃ p, (start (Layout.read settings.escapeDirective texts)).takeAll settings before = (p, none) ∧
      (p.assembly.hasStage = true →
        d.stages.map Stage.opening =
          ((after.map LogicalLine.text).filter opensStage).foldl
            (Grammar.follow (p.context settings).ground) p.openings) := by
  obtain ⟨r, hr, hfinish⟩ := takeAll_of_readLines h
  rw [hlines] at hr
  obtain ⟨p, hp, hafter⟩ := Progress.takeAll_append hr
  refine ⟨p, hp, fun hstage => ?_⟩
  obtain ⟨ts, -, hpassage⟩ := Progress.passage_of_takeAll hp
  have hwell := hpassage.wellFormed (wellFormed_start _)
  rw [(Progress.eq_final_of_finish hfinish).2.2, openings_final]
  exact Progress.openings_of_takeAll hwell (Progress.hasStage_iff_openings.mp hstage) hafter

/-- **FROM sees the global layer only.**

1. In contexts with the same escape character, whose scopes have the same escape character and the
   same variables declared before the first stage, a FROM comes to the same, failures and undeclared
   names included.  What the scopes have for stages, and which stages there are, does not matter.
2. Take two files that begin with the same logical lines, the FROM of a stage among them, and whose
   FROMs after these lines have the same texts.  Whatever else stands after them, ARGs and ENVs of
   stages as well, the stages of the two documents have the same images, platforms and names. -/
theorem openings_of_ground :
    (∀ (s : Statement) (cx cx' : Context) (sc sc' : Scope), s.keyword = .fromImage →
      cx.scope = some sc → cx'.scope = some sc' →
      cx'.escape = cx.escape → sc'.escape = sc.escape → sc'.global = sc.global →
        Grammar.instruction s cx' = Grammar.instruction s cx) ∧
      ∀ (settings : Settings) (texts texts' : List Text) (d d' : Document)
        (before after after' : List LogicalLine),
        let layout := Layout.read settings.escapeDirective texts
        let layout' := Layout.read settings.escapeDirective texts'
        readLines settings texts = .ok d → readLines settings texts' = .ok d' →
        layout'.preamble = layout.preamble →
        layout.lines = before ++ after → layout'.lines = before ++ after' →
        ((start layout).takeAll settings before).1.assembly.hasStage = true →
        (after'.map LogicalLine.text).filter opensStage =
          (after.map LogicalLine.text).filter opensStage →
          d'.stages.map Stage.opening = d.stages.map Stage.opening := by
  refine ⟨?_, ?_⟩
  · intro s cx cx' sc sc' hs hsc hsc' hescape hscope hglobal
    have hground : sc'.ground = sc.ground := by
      rw [Scope.ground, Scope.ground, hscope, hglobal]
    refine Grammar.instruction_of_ground hs ?_
    rw [Context.ground, Context.ground, hsc, hsc', hescape, Option.map_some, Option.map_some,
      hground]
  · intro settings texts texts' d d' before after after' layout layout' h h' hpreamble hlines
      hlines'
      hstage hopens
    have hstart : start layout' = start layout := by rw [start, start, hpreamble]
    obtain ⟨p, hp, hopenings⟩ := openings_of_readLines h hlines
    obtain ⟨p', hp', hopenings'⟩ := openings_of_readLines h' hlines'
    rw [hstart, hp] at hp'
    cases hp'
    rw [hp] at hstage
    rw [hopenings hstage, hopenings' hstage, hopens]

/-- A FROM with a variable in its flag, in its image and in a default. -/
def shadowedFrom : Statement :=
  { keyword := .fromImage
    rawArgs := "--platform=linux/$V alpine:${W:-$V} AS next".toList
    flags := [⟨"platform".toList, some "linux/$V".toList⟩]
    args := .text "alpine:${W:-$V} AS next".toList
    lines := .single 4
    heredocs := [] }

/-- A stage that gives the variable another value and declares the other one does not change it, in
a context of its own or in a file. -/
theorem openings_of_ground_shadowed :
    let v : Binding := ⟨"V".toList, some "3".toList, .arg, 0, .global⟩
    let inStage : Layer := [⟨"V".toList, some "9".toList, .env, 2, .stage 0⟩,
      ⟨"W".toList, some "8".toList, .arg, 3, .stage 0⟩]
    let sc : Scope := { escape := '\\', global := [v], stages := .writing [] [] }
    let sc' : Scope := { escape := '\\', global := [v], stages := .writing [] inStage }
    let texts := ["ARG V=3".toList, "FROM alpine:$V AS base".toList, "ENV X=1".toList,
      "FROM --platform=linux/$V alpine:${W:-$V} AS next".toList]
    let texts' :=
      ["ARG V=3".toList, "FROM alpine:$V AS base".toList, "ENV V=9".toList, "ARG W=8".toList,
      "FROM --platform=linux/$V alpine:${W:-$V} AS next".toList]
    let image : ImageName := ⟨none, "alpine".toList, some "3".toList, none⟩
    Grammar.instruction shadowedFrom ⟨'\\', some sc', [], false⟩ =
        Grammar.instruction shadowedFrom ⟨'\\', some sc, [], false⟩ ∧
      ∃ d d', readLines {} texts = .ok d ∧ readLines {} texts' = .ok d' ∧
        d.stages.map Stage.opening =
          [⟨image, none, some "base".toList⟩, ⟨image, some "linux/3".toList, some "next".toList⟩] ∧
        d'.stages.map Stage.opening = d.stages.map Stage.opening := by
  intro v inStage sc sc' texts texts' image
  refine ⟨openings_of_ground.1 _ _ _ sc sc' rfl rfl rfl rfl rfl rfl, ?_⟩
  obtain ⟨d, hd, hopenings⟩ :=
    ok_of_map (x := readLines {} texts) (f := fun d => d.stages.map Stage.opening)
    (b := [⟨image, none, some "base".toList⟩, ⟨image, some "linux/3".toList, some "next".toList⟩])
    (by decide +kernel)
  obtain ⟨d', hd', -⟩ :=
    ok_of_map (x := readLines {} texts') (f := fun d => d.stages.length) (b := 2)
    (by decide +kernel)
  have hafter : (Layout.read true texts').lines =
      (Layout.read true texts).lines.take 2 ++ (Layout.read true texts').lines.drop 2 := by
    decide +kernel
  exact ⟨d, d', hd, hd', hopenings, openings_of_ground.2 {} texts texts' d d' _ _ _ hd hd'
    (by decide +kernel) (List.take_append_drop 2 _).symm hafter (by decide +kernel)
      (by decide +kernel)⟩

end Document

end Containerfile
