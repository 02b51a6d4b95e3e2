import Containerfile.Instruction.Printer
import Containerfile.Proofs.Json.Arrays
import Containerfile.Proofs.Line.Sound

/-! # The lines of a printed instruction

An instruction is printed as one line, its *head*, and its heredocs after that.  The texts of an
instruction that are printed outside JSON stand in the head as they are or escaped, so the head is
one line if they are (`Instruction.oneLine_head`).  Then the lines of the printed instruction are
known (`Instruction.splitAll_render`). -/
namespace Containerfile

/-! ## Texts -/

/-- The text of a shell command. -/
def Command.texts : Command → List Text
  | shell t => [t]
  | exec _ => []

/-- The texts of COPY and ADD that are printed outside JSON. -/
def Transfer.texts (files : Transfer) : List Text :=
  (if files.execForm then [] else files.sources ++ [files.destination]) ++
    files.chown.toList ++ files.chmod.toList ++ files.exclude

/-- The texts of a pair. -/
def KeyValue.texts (p : KeyValue) : List Text := [p.key, p.value]

/-- The texts of a declaration. -/
def ArgDecl.texts (d : ArgDecl) : List Text := d.name :: d.default.toList

/-- The texts of a step that are printed outside JSON. -/
def Step.texts : Step → List Text
  | run r => r.command.texts ++ r.mounts.map Mount.raw
  | cmd c | entrypoint c => c.texts
  | copy files source _ => files.texts ++ (source.map StageRef.render).toList
  | add files checksum _ => files.texts ++ checksum.toList
  | env pairs | label pairs => pairs.flatMap KeyValue.texts
  | arg decls => decls.flatMap ArgDecl.texts
  | expose ports => ports.map Port.port
  | volume paths execForm => if execForm then [] else paths
  | workdir path => [path]
  | user name group => name :: group.toList
  | shell _ => []
  | stopsignal signal => [signal]
  | healthcheck check => (check.map fun h => h.command.texts).getD []

/-- The texts of an instruction that are printed outside JSON. -/
def Instruction.texts : Instruction → List Text
  | fromImage b => b.image.render :: b.platform.toList ++ b.stageName.toList
  | step s | onbuild s => s.texts
  | maintainer name => [name]

/-- A command whose text stays on one line, if it is printed as it is. -/
def Command.OneLine (c : Command) : Prop := ∀ t ∈ c.texts, Text.OneLine t

/-- A step whose texts stay on one line each. -/
def Step.OneLine (s : Step) : Prop := ∀ t ∈ s.texts, Text.OneLine t

/-- An instruction whose texts stay on one line each. -/
def Instruction.OneLine (i : Instruction) : Prop := ∀ t ∈ i.texts, Text.OneLine t

/-! ## Values and arrays -/

open Text

theorem oneLine_escapeValue {special : Char → Bool} {t : Text} (h : OneLine t) :
    OneLine (escapeValue special t) := by
  rw [escapeValue, oneLine_flatMap]
  intro c hc
  have hne : c ≠ '\n' := by
    rintro rfl
    exact h hc
  split
  · simp [hne]
  · simp [hne]

theorem oneLine_doubleQuoted {t : Text} (h : OneLine t) : OneLine (doubleQuoted t) := by
  rw [doubleQuoted, oneLine_append, oneLine_cons]
  exact ⟨⟨by decide, oneLine_escapeValue h⟩, by decide⟩

theorem oneLine_quoteValue {t : Text} (q : Quoting) (h : OneLine t) :
    OneLine (quoteValue q t) := by
  cases q with
  | single =>
    rw [quoteValue]
    split
    · exact oneLine_doubleQuoted h
    · rw [oneLine_append, oneLine_cons]
      exact ⟨⟨by decide, h⟩, by decide⟩
  | double => exact oneLine_doubleQuoted h
  | unquoted =>
    rw [quoteValue]
    split
    · exact oneLine_doubleQuoted h
    · exact oneLine_escapeValue h

theorem oneLine_spaceCommas {t : Text} (h : OneLine t) : OneLine (spaceCommas t) := by
  fun_induction spaceCommas t with
  | case1 t ih => simp_all
  | case2 c t _ ih =>
    rw [oneLine_cons] at h ⊢
    exact ⟨h.1, ih h.2⟩
  | case3 => exact h

namespace StringFormat

variable (F : StringFormat)

theorem oneLine_quote (t : Text) : OneLine (F.quote t) := by
  rw [quote, escaped, oneLine_append, oneLine_cons, oneLine_flatMap]
  exact ⟨⟨by decide, fun c _ => F.oneLine_escape c⟩, by decide⟩

theorem oneLine_listEnd (items : List (Nat × Text)) : OneLine (F.listEnd items) := by
  induction items with
  | nil =>
    show OneLine [']']
    decide
  | cons x items ih =>
    have hblanks : OneLine (List.replicate x.1 ' ') := by
      intro hmem
      cases List.eq_of_mem_replicate hmem
    rw [listEnd, oneLine_append, oneLine_cons, oneLine_append]
    exact ⟨⟨by decide, hblanks⟩, F.oneLine_quote x.2, ih⟩

end StringFormat

/-- An array is written on one line whatever its strings are. -/
theorem ArrayFormat.oneLine_write (F : ArrayFormat) (items : List Text) :
    OneLine (F.write items) := by
  cases items with
  | nil =>
    rw [F.write_nil]
    decide
  | cons item items =>
    rw [F.write_cons, oneLine_cons, oneLine_append]
    exact ⟨by decide, F.oneLine_quote item, F.oneLine_listEnd _⟩

/-- **An array stays on one line whatever its strings are.** -/
theorem oneLine_execText (items : List Text) : OneLine (execText items) :=
  oneLine_spaceCommas (Json.format.oneLine_write items)

theorem oneLine_toDigits (n : Nat) : OneLine (Nat.toDigits 10 n) := by
  intro hn
  have hdigit := Nat.isDigit_of_mem_toDigits (by decide) (by decide) hn
  revert hdigit
  decide

theorem oneLine_duration (d : Duration) : OneLine d.render := by
  rw [Duration.render]
  split
  · exact oneLine_append.mpr ⟨oneLine_toDigits _, by decide⟩
  · split
    · exact oneLine_append.mpr ⟨oneLine_toDigits _, by decide⟩
    · exact oneLine_append.mpr ⟨oneLine_toDigits _, by decide⟩

/-! ## Parts -/

theorem oneLine_spaced {parts : List Text} :
    OneLine (spaced parts) ↔ ∀ p ∈ parts, OneLine p := by
  rw [spaced, oneLine_flatMap]
  constructor
  · intro h p hp
    exact (oneLine_cons.mp (h p hp)).2
  · intro h p hp
    exact oneLine_cons.mpr ⟨by decide, h p hp⟩

theorem oneLine_flagText {name : String} {value : Text} (hname : OneLine name.toList)
    (hvalue : OneLine value) : OneLine (flagText name value) := by
  rw [flagText, oneLine_append, oneLine_append, oneLine_cons]
  exact ⟨⟨by decide, hname⟩, by decide, hvalue⟩

theorem oneLine_optionalFlag {name : String} {value : Option Text} (hname : OneLine name.toList)
    (hvalue : ∀ v ∈ value, OneLine v) : ∀ p ∈ optionalFlag name value, OneLine p := by
  intro p hp
  cases value with
  | none => cases hp
  | some v =>
    rw [List.mem_singleton.mp hp]
    exact oneLine_flagText hname (hvalue v rfl)

theorem oneLine_switchFlag {name : String} {on : Bool} (hname : OneLine name.toList) :
    ∀ p ∈ switchFlag name on, OneLine p := by
  intro p hp
  cases on with
  | false => cases hp
  | true =>
    rw [List.mem_singleton.mp hp, oneLine_append]
    exact ⟨by decide, hname⟩

theorem oneLine_command {c : Command} (h : c.OneLine) : OneLine c.render := by
  cases c with
  | shell t => exact h t List.mem_cons_self
  | exec items => exact oneLine_execText items

theorem oneLine_pathsText {execForm : Bool} {paths : List Text}
    (h : ∀ t ∈ if execForm then [] else paths, OneLine t) :
    ∀ p ∈ pathsText execForm paths, OneLine p := by
  intro p hp
  cases execForm with
  | false =>
    obtain ⟨t, ht, rfl⟩ := List.mem_map.mp hp
    exact oneLine_quoteValue .unquoted (h t ht)
  | true =>
    rw [List.mem_singleton.mp hp]
    exact oneLine_execText paths

theorem oneLine_keyValue {p : KeyValue} (h : ∀ t ∈ p.texts, OneLine t) : OneLine p.render := by
  have hkey := h p.key List.mem_cons_self
  have hvalue := h p.value (List.mem_cons_of_mem _ List.mem_cons_self)
  rw [KeyValue.render, oneLine_append]
  refine ⟨oneLine_quoteValue .unquoted hkey, ?_⟩
  split
  · exact oneLine_cons.mpr ⟨by decide, oneLine_quoteValue _ hvalue⟩
  · split
    · exact oneLine_cons.mpr ⟨by decide, oneLine_escapeValue hvalue⟩
    · exact oneLine_cons.mpr ⟨by decide, oneLine_quoteValue _ hvalue⟩

theorem oneLine_argDecl {d : ArgDecl} (h : ∀ t ∈ d.texts, OneLine t) : OneLine d.render := by
  have hname := h d.name List.mem_cons_self
  rw [ArgDecl.render]
  split
  · exact hname
  · rename_i value hd
    have hvalue := h value (List.mem_cons_of_mem _ (by rw [hd]; exact List.mem_singleton_self _))
    exact oneLine_append.mpr ⟨hname, oneLine_cons.mpr ⟨by decide, oneLine_quoteValue _ hvalue⟩⟩

theorem oneLine_port {p : Port} (h : OneLine p.port) : OneLine p.render := by
  rw [Port.render]
  split
  · rename_i protocol _
    refine oneLine_append.mpr ⟨h, oneLine_cons.mpr ⟨by decide, ?_⟩⟩
    cases protocol <;> decide
  · exact h

/-! ## Heads -/

/-- The text of a step without its heredocs. -/
def Step.head (s : Step) : Text := s.keyword.text ++ spaced (s.flagTexts ++ s.argTexts)

/-- The text of an instruction without its heredocs. -/
def Instruction.head : Instruction → Text
  | .fromImage b => (Instruction.fromImage b).render
  | .step s => s.head
  | .onbuild s => Keyword.onbuild.text ++ ' ' :: s.head
  | .maintainer name => (Instruction.maintainer name).render

/-- An instruction is its head and the heredocs after it. -/
theorem Instruction.render_eq (i : Instruction) : i.render = i.head ++ heredocsText i.heredocs := by
  cases i with
  | fromImage b => exact (List.append_nil _).symm
  | step s => rfl
  | onbuild s =>
    show Keyword.onbuild.text ++ ' ' :: (s.head ++ heredocsText s.heredocs) =
      Keyword.onbuild.text ++ ' ' :: s.head ++ heredocsText s.heredocs
    rw [List.append_assoc]
    rfl
  | maintainer name => exact (List.append_nil _).symm

theorem oneLine_keyword (k : Keyword) : OneLine k.text := by cases k <;> decide

/-- The flag of a value that is one of a few names. -/
theorem oneLine_namedFlag {α : Type} {flag : String} {value : Option α} {name : α → String}
    (hflag : OneLine flag.toList) (hname : ∀ a, OneLine (name a).toList) :
    ∀ p ∈ optionalFlag flag (value.map fun a => (name a).toList), OneLine p := by
  apply oneLine_optionalFlag hflag
  intro v hv
  obtain ⟨a, -, rfl⟩ := Option.map_eq_some_iff.mp hv
  exact hname a

theorem oneLine_durationFlag {flag : String} {value : Option Duration}
    (hflag : OneLine flag.toList) :
    ∀ p ∈ optionalFlag flag (value.map Duration.render), OneLine p := by
  apply oneLine_optionalFlag hflag
  intro v hv
  obtain ⟨d, -, rfl⟩ := Option.map_eq_some_iff.mp hv
  exact oneLine_duration d

theorem oneLine_mapFlag {α : Type} {flag : String} {values : List α} {f : α → Text}
    (hflag : OneLine flag.toList) (h : ∀ t ∈ values.map f, OneLine t) :
    ∀ p ∈ values.map (fun a => flagText flag (f a)), OneLine p := by
  intro p hp
  obtain ⟨a, ha, rfl⟩ := List.mem_map.mp hp
  exact oneLine_flagText hflag (h _ (List.mem_map_of_mem ha))

theorem oneLine_toList {value : Option Text} :
    (∀ t ∈ value.toList, OneLine t) ↔ ∀ v ∈ value, OneLine v := by
  cases value <;> simp

namespace Step

variable {s : Step}

theorem oneLine_flagTexts (h : s.OneLine) : ∀ p ∈ s.flagTexts, Text.OneLine p := by
  unfold OneLine at h
  cases s with
  | run r =>
    rw [texts, List.forall_mem_append] at h
    rw [flagTexts, List.forall_mem_append, List.forall_mem_append]
    refine ⟨⟨?_, ?_⟩, ?_⟩
    · exact oneLine_mapFlag (by decide) h.2
    · exact oneLine_namedFlag (by decide) fun m => by cases m <;> decide
    · exact oneLine_namedFlag (by decide) fun m => by cases m <;> decide
  | copy files source parents =>
    rw [texts, Transfer.texts] at h
    simp only [List.forall_mem_append, oneLine_toList] at h
    obtain ⟨⟨⟨⟨-, hchown⟩, hchmod⟩, hexclude⟩, hsource⟩ := h
    simp only [flagTexts, List.forall_mem_append]
    refine ⟨⟨⟨⟨⟨?_, ?_⟩, ?_⟩, ?_⟩, ?_⟩, ?_⟩
    · exact oneLine_optionalFlag (by decide) hsource
    · exact oneLine_optionalFlag (by decide) hchown
    · exact oneLine_optionalFlag (by decide) hchmod
    · exact oneLine_switchFlag (by decide)
    · exact oneLine_switchFlag (by decide)
    · exact oneLine_mapFlag (f := id) (by decide) (by simpa using hexclude)
  | add files checksum keepGitDir =>
    rw [texts, Transfer.texts] at h
    simp only [List.forall_mem_append, oneLine_toList] at h
    obtain ⟨⟨⟨⟨-, hchown⟩, hchmod⟩, hexclude⟩, hchecksum⟩ := h
    simp only [flagTexts, List.forall_mem_append]
    refine ⟨⟨⟨⟨⟨?_, ?_⟩, ?_⟩, ?_⟩, ?_⟩, ?_⟩
    · exact oneLine_optionalFlag (by decide) hchown
    · exact oneLine_optionalFlag (by decide) hchmod
    · exact oneLine_optionalFlag (by decide) hchecksum
    · exact oneLine_switchFlag (by decide)
    · exact oneLine_switchFlag (by decide)
    · exact oneLine_mapFlag (f := id) (by decide) (by simpa using hexclude)
  | healthcheck check =>
    cases check with
    | none =>
      intro p hp
      cases hp
    | some check =>
      simp only [flagTexts, List.forall_mem_append]
      refine ⟨⟨⟨⟨?_, ?_⟩, ?_⟩, ?_⟩, ?_⟩
      · exact oneLine_durationFlag (by decide)
      · exact oneLine_durationFlag (by decide)
      · exact oneLine_durationFlag (by decide)
      · exact oneLine_durationFlag (by decide)
      · apply oneLine_optionalFlag (by decide)
        intro v hv
        obtain ⟨n, -, rfl⟩ := Option.map_eq_some_iff.mp hv
        exact oneLine_toDigits n
  | cmd _ | entrypoint _ | env _ | label _ | arg _ | expose _ | volume _ _ | workdir _ | user _ _
  | shell _ | stopsignal _ =>
    intro p hp
    cases hp

theorem oneLine_argTexts (h : s.OneLine) : ∀ p ∈ s.argTexts, Text.OneLine p := by
  have hmap : ∀ {α : Type} {l : List α} {f : α → Text} {g : α → List Text},
      (∀ t ∈ l.flatMap g, Text.OneLine t) →
      (∀ a, (∀ t ∈ g a, Text.OneLine t) → Text.OneLine (f a)) →
      ∀ p ∈ l.map f, Text.OneLine p := by
    intro α l f g hl hf p hp
    obtain ⟨a, ha, rfl⟩ := List.mem_map.mp hp
    exact hf a fun t ht => hl t (List.mem_flatMap.mpr ⟨a, ha, ht⟩)
  unfold OneLine at h
  cases s with
  | run r =>
    rw [texts, List.forall_mem_append] at h
    rw [argTexts, List.forall_mem_singleton]
    exact oneLine_command h.1
  | cmd c | entrypoint c =>
    rw [argTexts, List.forall_mem_singleton]
    exact oneLine_command h
  | copy files source parents =>
    rw [texts, Transfer.texts] at h
    simp only [List.forall_mem_append] at h
    exact oneLine_pathsText h.1.1.1.1
  | add files checksum keepGitDir =>
    rw [texts, Transfer.texts] at h
    simp only [List.forall_mem_append] at h
    exact oneLine_pathsText h.1.1.1.1
  | env pairs | label pairs => exact hmap h fun p hp => oneLine_keyValue hp
  | arg decls => exact hmap h fun d hd => oneLine_argDecl hd
  | expose ports =>
    intro p hp
    obtain ⟨port, hport, rfl⟩ := List.mem_map.mp hp
    exact oneLine_port (h _ (List.mem_map_of_mem hport))
  | volume paths execForm => exact oneLine_pathsText h
  | workdir path => exact h
  | user name group =>
    cases group with
    | none => exact h
    | some group =>
      rw [argTexts, List.forall_mem_singleton, oneLine_append, oneLine_cons]
      exact ⟨h name List.mem_cons_self, by decide,
        h group (List.mem_cons_of_mem _ (List.mem_singleton_self _))⟩
  | shell argv =>
    rw [argTexts, List.forall_mem_singleton]
    exact oneLine_execText argv
  | stopsignal signal => exact h
  | healthcheck check =>
    cases check with
    | none =>
      rw [argTexts, List.forall_mem_singleton]
      decide
    | some check =>
      rw [argTexts, List.forall_mem_cons, List.forall_mem_singleton]
      exact ⟨by decide, oneLine_command h⟩

theorem oneLine_head (h : s.OneLine) : Text.OneLine s.head := by
  rw [head, oneLine_append, oneLine_spaced, List.forall_mem_append]
  exact ⟨oneLine_keyword _, oneLine_flagTexts h, oneLine_argTexts h⟩

end Step

/-- **The head of an instruction is one line.** -/
theorem Instruction.oneLine_head {i : Instruction} (h : i.OneLine) : Text.OneLine i.head := by
  cases i with
  | fromImage b =>
    have hlist : ∀ t ∈ b.image.render :: b.platform.toList ++ b.stageName.toList,
        Text.OneLine t := h
    rw [List.forall_mem_append, List.forall_mem_cons, oneLine_toList, oneLine_toList] at hlist
    obtain ⟨⟨himage, hplatform⟩, hname⟩ := hlist
    rw [head, render, oneLine_append, oneLine_spaced, List.forall_mem_append,
      List.forall_mem_append, List.forall_mem_singleton]
    refine ⟨oneLine_keyword _, ⟨oneLine_optionalFlag (by decide) hplatform, himage⟩, ?_⟩
    rw [oneLine_toList]
    intro v hv
    obtain ⟨name, hn, rfl⟩ := Option.map_eq_some_iff.mp hv
    exact oneLine_append.mpr ⟨by decide, hname name hn⟩
  | step s => exact s.oneLine_head h
  | onbuild s =>
    rw [head, oneLine_append, oneLine_cons]
    exact ⟨oneLine_keyword _, by decide, s.oneLine_head h⟩
  | maintainer name =>
    rw [head, render, oneLine_append, oneLine_cons]
    exact ⟨oneLine_keyword _, by decide, h name List.mem_cons_self⟩

/-! ## Lines -/

/-- The lines of a printed heredoc. -/
def Heredoc.printedLines (h : Heredoc) : List Text :=
  (if h.body.isEmpty then [] else h.body.splitAll '\n') ++ [h.delimiter]

/-- An instruction that is printed line by line: its texts are one line each, and its heredocs have
words to end them. -/
structure Instruction.Printable (i : Instruction) : Prop where
  oneLine : i.OneLine
  delimited : ∀ k ∈ i.heredocs, k.Delimited

theorem splitAll_heredocs {t : Text} {hs : List Heredoc} (ht : OneLine t)
    (hd : ∀ h ∈ hs, h.Delimited) :
    splitAll '\n' (t ++ heredocsText hs) = t :: hs.flatMap Heredoc.printedLines := by
  induction hs generalizing t with
  | nil =>
    rw [heredocsText, List.flatMap_nil, List.append_nil]
    exact splitAll_of_not_mem ht
  | cons h hs ih =>
    have hword := HeredocMarker.oneLine_of_isWord (hd h List.mem_cons_self)
    have hrest := ih hword fun k hk => hd k (List.mem_cons_of_mem _ hk)
    rw [heredocsText, List.flatMap_cons, ← heredocsText, List.flatMap_cons, Heredoc.render,
      Heredoc.printedLines]
    by_cases hbody : h.body.isEmpty = true
    · rw [if_pos hbody, if_pos hbody, List.cons_append, splitAll_append, splitAll_of_not_mem ht,
        hrest]
      rfl
    · rw [if_neg hbody, if_neg hbody, List.cons_append, List.cons_append, List.append_assoc,
        splitAll_append, splitAll_of_not_mem ht]
      have htail : '\n' :: h.delimiter ++ heredocsText hs =
          '\n' :: (h.delimiter ++ heredocsText hs) := rfl
      rw [htail, splitAll_append, hrest]
      simp

/-- **The lines of a printed instruction**: its head, and the lines of its heredocs. -/
theorem Instruction.splitAll_render {i : Instruction} (h : i.Printable) :
    splitAll '\n' i.render = i.head :: i.heredocs.flatMap Heredoc.printedLines := by
  rw [i.render_eq]
  exact splitAll_heredocs (Instruction.oneLine_head h.oneLine) h.delimited

/-- The heredocs of a printed instruction have as many visible lines as they weigh. -/
theorem countP_printedLines {hs : List Heredoc} (hd : ∀ h ∈ hs, h.Delimited) :
    (hs.flatMap Heredoc.printedLines).countP (fun l => !l.trim.isEmpty) =
      Heredoc.totalWeight hs := by
  induction hs with
  | nil => rfl
  | cons h hs ih =>
    have hword := hd h List.mem_cons_self
    have hvisible : (!h.delimiter.trim.isEmpty) = true := by
      rw [Bool.not_eq_true', List.isEmpty_eq_false_iff]
      intro hnil
      rw [trim_eq_nil_iff] at hnil
      have hblank := HeredocMarker.isBlank_of_isWord hword
      cases hw : h.delimiter with
      | nil =>
        rw [Heredoc.Delimited, hw] at hword
        cases hword
      | cons c t =>
        have hc : c ∈ h.delimiter := by rw [hw]; exact List.mem_cons_self
        have hno := hblank c hc
        rw [hnil c hc] at hno
        cases hno
    have hbody : (if h.body.isEmpty then [] else h.body.splitAll '\n').countP
        (fun l => !l.trim.isEmpty) = h.body.visibleLines := by
      by_cases hnil : h.body.isEmpty = true
      · rw [if_pos hnil, Text.visibleLines, List.isEmpty_iff.mp hnil]
        rfl
      · rw [if_neg hnil, Text.visibleLines]
    rw [List.flatMap_cons, List.countP_append, ih fun k hk => hd k (List.mem_cons_of_mem _ hk),
      Heredoc.printedLines, List.countP_append, hbody, List.countP_singleton, if_pos hvisible,
      Heredoc.totalWeight, Heredoc.weight]

end Containerfile
