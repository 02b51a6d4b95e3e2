import Containerfile.Proofs.Grammar.PrintedPairs

/-! # Printed declarations

The names of ARG are printed as they were written, quotes and escape characters included, also those
that were written with another escape character.  So a name is read back if it is a name for the
printed escape character too: no word ends in it, and it has no equals sign outside quotes.  A blank
or an equals sign follows it, so it ends outside quotes, unless it is the last thing on its line;
and there it is trimmed.

Main statement: `Grammar.arg_render`. -/
namespace Containerfile

variable {s : Statement} {cx : Context} {d d' : ArgDecl} {ds ds' : List ArgDecl} {w t : Text}

namespace ArgDecl

/-- A name as it is read: it begins with no blank. -/
def Formed (d : ArgDecl) : Prop := d.name ≠ [] ∧ ∀ c ∈ d.name.head?, isBlank c = false

/-- A name for the printed escape character, behind which the line stands in `shelter`. -/
def Names (d : ArgDecl) (shelter : Shelter) : Prop :=
  Word.Passes defaultEscape .bare d.name shelter ∧ Word.cut? defaultEscape '=' d.name = none

/-- Declarations on a line that are read back: the last of them may end anywhere but behind a
blank. -/
def Legible : List ArgDecl → Prop
  | [] => True
  | [d] =>
    match d.default with
    | some _ => d.Names .bare
    | none => (∃ shelter, d.Names shelter) ∧ ∀ c ∈ d.name.getLast?, isBlank c = false
  | d :: e :: ds => d.Names .bare ∧ Legible (e :: ds)

/-- A declaration as it is read back. -/
def written (d : ArgDecl) : ArgDecl :=
  { d with quoting := d.default.elim .unquoted d.quoting.written }

theorem head?_render (h : d.Formed) : ∀ c ∈ d.render.head?, isBlank c = false := by
  obtain ⟨c, name, hname⟩ := List.exists_cons_of_ne_nil h.1
  intro e he
  refine h.2 e ?_
  rw [render] at he
  cases hd : d.default <;> rw [hd] at he <;> simpa [hname] using he

theorem render_ne_nil (h : d.Formed) : d.render ≠ [] := by
  rw [render]
  cases d.default with
  | none => exact h.1
  | some value => simp

theorem head?_join_render (hds : ∀ d ∈ ds, d.Formed) :
    ∀ c ∈ (Text.join [' '] (ds.map render)).head?, isBlank c = false := by
  cases ds with
  | nil =>
    rintro c ⟨⟩
  | cons d ds =>
    have hd := hds d List.mem_cons_self
    rw [List.map_cons, Word.head?_join (render_ne_nil hd)]
    exact head?_render hd

theorem whole_render (h : d.Formed) (hname : d.Names .bare) :
    Word.Whole defaultEscape d.render := by
  refine ⟨render_ne_nil h, head?_render h, ?_⟩
  rw [render]
  cases d.default with
  | none => exact hname.1
  | some value => exact (whole_of_name h.2 hname.1 d.quoting value).passes

theorem trimmed_render (h : d.Formed) {value : Text} (hdefault : d.default = some value) :
    Text.Trimmed d.render := by
  rw [render, hdefault]
  exact trimmed_of_name h.2 d.quoting value

theorem render_of_none (hdefault : d.default = none) : d.render = d.name := by rw [render, hdefault]

theorem join_render_cons_cons (d e : ArgDecl) (ds : List ArgDecl) :
    Text.join [' '] ((d :: e :: ds).map render) =
      d.render ++ ' ' :: Text.join [' '] ((e :: ds).map render) := by
  rw [List.map_cons, List.map_cons, Text.join_cons_cons, List.append_assoc]
  rfl

end ArgDecl

/-! ## Words of declarations -/

/-- The name that a word declares, and whether the word has a default. -/
def Word.declares (escape : Char) (w : Text) : Text × Bool :=
  match Word.cut? escape '=' w with
  | none => (w, false)
  | some (name, _) => (name, true)

namespace Grammar

/-- A word is read as a declaration of its name, if there is one. -/
theorem head_of_declaration (h : (declaration s w cx).result = .ok d) :
    d.head = Word.declares cx.escape w ∧ d.name ≠ [] := by
  rw [declaration, bind_of_ok (context_run cx)] at h
  rw [Word.declares]
  cases hcut : Word.cut? cx.escape '=' w with
  | none =>
    rw [hcut] at h
    dsimp only at h ⊢
    split at h
    · cases h
    · rename_i hne
      cases h
      exact ⟨rfl, by simpa using hne⟩
  | some p =>
    rw [hcut] at h
    obtain ⟨v, -, h⟩ := ok_of_bind h
    dsimp only at h ⊢
    split at h
    · cases h
    · rename_i hne
      cases h
      exact ⟨rfl, by simpa using hne⟩

theorem declaration_render (hcx : cx.Canonical) (h : d.Formed) {shelter : Shelter}
    (hname : d.Names shelter) (hbare : d.default.isSome = true → shelter = .bare) :
    (declaration s d.render cx).result = .ok d.written := by
  obtain ⟨hpasses, hcut⟩ := hname
  obtain ⟨name, default, quoting⟩ := d
  have hne : List.isEmpty name = false := by simpa using h.1
  rw [declaration, bind_of_ok (context_run cx), hcx.escape, ArgDecl.render]
  cases default with
  | none =>
    dsimp only at hcut ⊢
    rw [hcut]
    dsimp only
    rw [hne, if_neg Bool.false_ne_true]
    rfl
  | some value =>
    cases hbare rfl
    dsimp only at hcut hpasses ⊢
    rw [Word.cut?_of_name hpasses hcut]
    dsimp only
    rw [bind_of_ok (word_quoted hcx quoting value)]
    dsimp only
    rw [hne, if_neg Bool.false_ne_true]
    rfl

end Grammar

namespace ArgDecl

/-! ## Legible declarations -/

/-- A declaration at the end of a line: its default is in the last word, or its name is. -/
theorem Legible.reads_singleton (hd : d.Formed) (h : Legible [d]) :
    Word.split defaultEscape d.render = [d.render] ∧ Text.Trimmed d.render ∧
      ∃ shelter, d.Names shelter ∧ (d.default.isSome = true → shelter = .bare) := by
  rw [Legible] at h
  cases hdefault : d.default with
  | none =>
    rw [hdefault] at h
    obtain ⟨⟨shelter, hname⟩, hlast⟩ := h
    rw [render_of_none hdefault]
    refine ⟨?_, ⟨hd.2, hlast⟩, shelter, hname, by simp⟩
    obtain ⟨c, name, hcons⟩ := List.exists_cons_of_ne_nil hd.1
    have hpasses := hname.1
    rw [hcons] at hpasses ⊢
    exact hpasses.split (hd.2 c (by rw [hcons]; rfl))
  | some value =>
    rw [hdefault] at h
    exact ⟨(whole_render hd h).split, trimmed_render hd hdefault, .bare, h, fun _ => rfl⟩

/-- **Legible declarations are read back.** -/
theorem Legible.reads (hds : ∀ d ∈ ds, d.Formed) (hne : ds ≠ []) (h : Legible ds) :
    Word.split defaultEscape (Text.join [' '] (ds.map render)) = ds.map render ∧
      Text.Trimmed (Text.join [' '] (ds.map render)) ∧
      ∀ d ∈ ds, ∃ shelter, d.Names shelter ∧ (d.default.isSome = true → shelter = .bare) := by
  induction ds with
  | nil => exact absurd rfl hne
  | cons d ds ih =>
    rw [List.forall_mem_cons] at hds
    obtain ⟨hd, hds⟩ := hds
    cases ds with
    | nil =>
      rw [List.map_singleton, Text.join, List.intercalate_singleton, List.forall_mem_singleton]
      exact h.reads_singleton hd
    | cons e ds =>
      rw [Legible] at h
      obtain ⟨hsplit, htrimmed, hnames⟩ := ih hds (List.cons_ne_nil e ds) h.2
      have hword := whole_render hd h.1
      have hrest := Word.join_ne_nil (render_ne_nil (hds e List.mem_cons_self)) (ds.map render)
      rw [join_render_cons_cons]
      refine ⟨?_, ?_, List.forall_mem_cons.mpr ⟨⟨.bare, h.1, fun _ => rfl⟩, hnames⟩⟩
      · rw [hword.split_append (by decide) (by decide), hsplit]
        rfl
      · rw [List.append_cons]
        exact Text.trimmed_append hword.ne_nil hrest hword.head htrimmed.2

/-- The first word of a text names what it declares.  Without a default it ends outside quotes if
something follows it. -/
theorem names_of_declares {ws : List Text} (hsplit : Word.split defaultEscape t = w :: ws)
    (hw : Word.declares defaultEscape w = d.head) :
    ∃ shelter, d.Names shelter ∧ (d.default.isSome = true → shelter = .bare) ∧
      (d.default = none → w = d.name ∧ (t.trimStart ≠ w → shelter = .bare)) := by
  obtain ⟨u, shelter, htext, -, -, hpasses, hu⟩ := Word.of_split_cons hsplit
  rw [Word.declares] at hw
  cases hcut : Word.cut? defaultEscape '=' w with
  | none =>
    rw [hcut] at hw
    obtain ⟨rfl, hdefault⟩ := Prod.mk.inj hw
    rw [eq_comm, Option.isSome_eq_false_iff, Option.isNone_iff_eq_none] at hdefault
    refine ⟨shelter, ⟨hpasses, hcut⟩, by simp [hdefault], fun _ => ⟨rfl, fun hne => ?_⟩⟩
    rcases hu with ⟨rfl, -⟩ | ⟨_, _, -, hbare, -⟩
    · exact absurd (htext.trans (List.append_nil _)) hne
    · exact hbare
  | some p =>
    obtain ⟨name, raw⟩ := p
    rw [hcut] at hw
    obtain ⟨rfl, hdefault⟩ := Prod.mk.inj hw
    obtain ⟨rfl, hnone, hrun⟩ := Word.of_cutFrom_eq_some hcut
    obtain ⟨shelter', hname, -⟩ := hpasses.of_append
    cases hname.run_eq.symm.trans hrun
    exact ⟨.bare, ⟨hname, hnone⟩, fun _ => rfl, fun hd => by simp [hd] at hdefault⟩

/-- Where more follows a declaration, its name ends outside quotes. -/
theorem names_bare_of_declares (hd : d.Formed) {ws : List Text}
    (hsplit : Word.split defaultEscape (d.render ++ ' ' :: t) = w :: ws)
    (hw : Word.declares defaultEscape w = d.head) : d.Names .bare := by
  obtain ⟨shelter, hname, hbare, hword⟩ := names_of_declares hsplit hw
  suffices hshelter : shelter = .bare by rwa [hshelter] at hname
  cases hdefault : d.default with
  | some value => exact hbare (by rw [hdefault]; rfl)
  | none =>
    obtain ⟨rfl, hfollowed⟩ := hword hdefault
    refine hfollowed ?_
    rw [render_of_none hdefault, Text.trimStart_eq_self]
    · intro heq
      have hlength := congrArg List.length heq
      simp at hlength
    · intro c hc
      rw [List.head?_append_of_ne_nil _ hd.1] at hc
      exact hd.2 c hc

/-- At the end of a line a name without default is trimmed, so it is read only if nothing is
lost. -/
theorem legible_singleton (hd : d.Formed) {ws : List Text}
    (hsplit : Word.split defaultEscape d.render.trimEnd = w :: ws)
    (hw : Word.declares defaultEscape w = d.head) : Legible [d] := by
  obtain ⟨shelter, hname, hbare, hword⟩ := names_of_declares hsplit hw
  rw [Legible]
  cases hdefault : d.default with
  | some value =>
    cases hbare (by rw [hdefault]; rfl)
    exact hname
  | none =>
    obtain ⟨rfl, -⟩ := hword hdefault
    obtain ⟨u, -, htext, -⟩ := Word.of_split_cons hsplit
    rw [render_of_none hdefault, Text.trimStart_trimEnd hd.2] at htext
    have hkept : d.name <+: d.name.trimEnd := ⟨u, htext.symm⟩
    have htrim : d.name.trimEnd = d.name :=
      (Text.trimEnd_isPrefix d.name).eq_of_length_le hkept.length_le
    refine ⟨⟨shelter, hname⟩, fun c hc => Text.isBlank_getLast_trimEnd (t := d.name) ?_⟩
    rwa [htrim]

/-- **Only legible declarations are read back**: the words of their line declare other names
otherwise. -/
theorem legible_of_split (hds : ∀ d ∈ ds, d.Formed)
    (h : (Word.split defaultEscape (Text.trimEnd (Text.join [' '] (ds.map render)))).map
      (Word.declares defaultEscape) = ds.map head) : Legible ds := by
  induction ds with
  | nil => trivial
  | cons d ds ih =>
    rw [List.forall_mem_cons] at hds
    obtain ⟨hd, hds⟩ := hds
    rw [List.map_cons (f := head), List.map_eq_cons_iff] at h
    obtain ⟨w, ws, hsplit, hw, hws⟩ := h
    cases ds with
    | nil =>
      rw [List.map_singleton, Text.join, List.intercalate_singleton] at hsplit
      exact legible_singleton hd hsplit hw
    | cons e ds =>
      have hrest : Text.trimEnd (Text.join [' '] ((e :: ds).map render)) ≠ [] :=
        Text.trimEnd_ne_nil (Word.join_ne_nil (render_ne_nil (hds e List.mem_cons_self)) _)
          (head?_join_render hds)
      rw [join_render_cons_cons, List.append_cons, Text.trimEnd_append_of_visible _ hrest,
        ← List.append_cons] at hsplit
      have hname := names_bare_of_declares hd hsplit hw
      rw [(whole_render hd hname).split_append (by decide) (by decide)] at hsplit
      cases hsplit
      exact ⟨hname, ih hds hws⟩

end ArgDecl

/-! ## Lines of declarations -/

namespace Grammar

theorem arg_eq_ok_iff {st : Step} :
    (arg s cx).result = .ok st ↔ Word.split cx.escape s.text ≠ [] ∧ ∃ ds, st = .arg ds ∧
      List.Forall₂ (fun w d => (declaration s w cx).result = .ok d)
        (Word.split cx.escape s.text) ds := by
  rw [arg, bind_of_ok (rawWords_run s.text cx)]
  cases Word.split cx.escape s.text with
  | nil => simp
  | cons w ws =>
    constructor
    · intro h
      obtain ⟨ds, hds, h⟩ := ok_of_bind h
      cases h
      exact ⟨List.cons_ne_nil w ws, ds, rfl, mapM'_eq_ok_iff.mp hds⟩
    · rintro ⟨-, ds, rfl, hds⟩
      have hmap := mapM'_eq_ok_iff.mpr hds
      dsimp only
      rw [bind_run, andThen, hmap]
      rfl

/-- What is read is formed. -/
theorem yields_formed_declaration (hw : ∀ c ∈ w.head?, isBlank c = false) :
    Yields cx ArgDecl.Formed (declaration s w) := by
  intro d hd
  obtain ⟨hhead, hne⟩ := head_of_declaration hd
  refine ⟨hne, fun c hc => hw c ?_⟩
  rw [Word.declares] at hhead
  cases hcut : Word.cut? cx.escape '=' w with
  | none =>
    rw [hcut] at hhead
    rwa [← (Prod.mk.inj hhead).1]
  | some p =>
    rw [hcut] at hhead
    have hname : d.name = p.1 := (Prod.mk.inj hhead).1
    rw [hname] at hc hne
    rw [(Word.of_cutFrom_eq_some hcut).1, List.head?_append_of_ne_nil _ hne]
    exact hc

theorem formed_of_arg (h : (arg s cx).result = .ok (.arg ds)) :
    ds ≠ [] ∧ ∀ d ∈ ds, d.Formed := by
  obtain ⟨hne, ds', hds', hwords⟩ := arg_eq_ok_iff.mp h
  cases hds'
  refine ⟨?_, ?_⟩
  · rintro rfl
    exact hne (List.forall₂_nil_right_iff.mp hwords)
  · exact yields_mapM' (fun w hw => yields_formed_declaration (Word.head_of_mem_split hw).2) ds
      (mapM'_eq_ok_iff.mpr hwords)

/-- **Printed declarations are read back** in every context if they are legible, and only then in
the context without variables. -/
theorem arg_render (hne : ds ≠ []) (hds : ∀ d ∈ ds, d.Formed)
    (hs : s.text = Text.trim (Text.join [' '] (ds.map ArgDecl.render))) :
    (ArgDecl.Legible ds → ∀ cx : Context, cx.Canonical →
        (arg s cx).result = .ok (.arg (ds.map ArgDecl.written))) ∧
      (∀ ds', (arg s .bare).result = .ok (.arg ds') → ds'.map ArgDecl.head = ds.map ArgDecl.head →
        ArgDecl.Legible ds) := by
  constructor
  · intro h cx hcx
    obtain ⟨hsplit, htrimmed, hnames⟩ := h.reads hds hne
    rw [Text.trim_eq_self htrimmed] at hs
    rw [arg_eq_ok_iff, hcx.escape, hs, hsplit]
    refine ⟨by simpa using hne, _, rfl, ?_⟩
    rw [List.forall₂_map_left_iff, List.forall₂_map_right_iff, List.forall₂_same]
    intro d hd
    obtain ⟨shelter, hname, hbare⟩ := hnames d hd
    exact declaration_render hcx (hds d hd) hname hbare
  · intro ds' h hheads
    obtain ⟨-, _, heq, hwords⟩ := arg_eq_ok_iff.mp h
    cases heq
    have htrim : s.text = Text.trimEnd (Text.join [' '] (ds.map ArgDecl.render)) := by
      rw [hs, Text.trim, Text.trimStart_eq_self (ArgDecl.head?_join_render hds)]
    refine ArgDecl.legible_of_split hds ?_
    rw [← htrim, ← hheads, ← List.forall₂_eq_eq_eq, List.forall₂_map_left_iff,
      List.forall₂_map_right_iff]
    exact hwords.imp fun w d hd => (head_of_declaration hd).1.symm

end Grammar

end Containerfile
