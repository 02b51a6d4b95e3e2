import Containerfile.Proofs.Grammar.Flags
import Containerfile.Proofs.Grammar.Substitution
import Containerfile.Proofs.Word.Printed

/-! # Values of flags that are filled in

A flag whose value is `$NAME` is read like one with the value that the name stands for, whatever the
flag is: a path, a mount, a mode, a duration, a number or the source of a COPY.  All of them are
values of `flagValues`, which fills them in.  The switches of COPY and ADD are the exception, since
`flagSwitch` looks at the value as it is written; a reference is then neither `true` nor `false`.

`Flag.Revalued` gives one flag another value.  Where the words are the same the flags are alike
(`Grammar.flagsAlike_of_revalued`), except for the switches.  `Grammar.Parts` follows the two
readings of a COPY or an ADD up to the switch at which they part.

Main statement: `Grammar.instruction_reference_iff`. -/
namespace Containerfile

/-- The same flags, but for the value of one of them. -/
inductive Flag.Revalued (name v w : Text) : List Flag → List Flag → Prop
  | head (fs : List Flag) : Revalued name v w (⟨name, some v⟩ :: fs) (⟨name, some w⟩ :: fs)
  | tail (f : Flag) {fs gs : List Flag} (h : Revalued name v w fs gs) :
    Revalued name v w (f :: fs) (f :: gs)

namespace Keyword

variable {k : Keyword} {switch : String}

/-- No switch has the name of a flag with a value of its own that is read before the switches. -/
theorem switch_ne (h : switch ∈ k.switches) :
    ∀ name ∈ ["from", "chown", "chmod", "checksum"], switch.toList ≠ name.toList := by
  have hall : ∀ switch ∈ k.switches,
      ∀ name ∈ ["from", "chown", "chmod", "checksum"], switch.toList ≠ name.toList := by
    cases k <;> decide
  exact hall switch h

/-- Only COPY and ADD have switches. -/
theorem eq_of_switch (h : switch ∈ k.switches) : k = copy ∨ k = add := by
  cases k with
  | copy => exact .inl rfl
  | add => exact .inr rfl
  | _ => cases h

/-- Switches stand once. -/
theorem repeatable_of_switch (h : switch ∈ k.switches) :
    k.repeatable.any (·.toList == switch.toList) = false := by
  have hall : ∀ switch ∈ k.switches, k.repeatable.any (·.toList == switch.toList) = false := by
    cases k <;> decide
  exact hall switch h

end Keyword

namespace Flag.Revalued

variable {name other v w : Text} {fs gs : List Flag}

theorem isEmpty_eq (h : Revalued name v w fs gs) : gs.isEmpty = fs.isEmpty := by
  cases h <;> rfl

theorem filter_of_ne (h : Revalued name v w fs gs) (hne : name ≠ other) :
    gs.filter (·.name == other) = fs.filter (·.name == other) := by
  induction h with
  | head fs =>
    rw [List.filter_cons_of_neg (by simpa using hne), List.filter_cons_of_neg (by simpa using hne)]
  | tail f _ ih => rw [List.filter_cons, List.filter_cons, ih]

theorem filter_self (h : Revalued name v w fs gs) :
    Revalued name v w (fs.filter (·.name == name)) (gs.filter (·.name == name)) := by
  induction h with
  | head fs =>
    rw [List.filter_cons_of_pos (by simp), List.filter_cons_of_pos (by simp)]
    exact .head _
  | tail f _ ih =>
    rw [List.filter_cons, List.filter_cons]
    split
    · exact .tail f ih
    · exact ih

theorem head?_eq (h : Revalued name v w fs gs) (hlength : fs.length ≤ 1) :
    fs.head? = some ⟨name, some v⟩ ∧ gs.head? = some ⟨name, some w⟩ := by
  cases h with
  | head => exact ⟨rfl, rfl⟩
  | tail f h => cases h <;> simp at hlength

/-- A flag that stands once is the first of its name. -/
theorem find?_eq (h : Revalued name v w fs gs) (honce : (fs.filter (·.name == name)).length ≤ 1) :
    fs.find? (·.name == name) = some ⟨name, some v⟩ ∧
      gs.find? (·.name == name) = some ⟨name, some w⟩ := by
  rw [← List.head?_filter, ← List.head?_filter]
  exact h.filter_self.head?_eq honce

/-- The check of the flags does not look at their values. -/
theorem badFlag_eq (h : Revalued name v w fs gs) (allowed repeatable : List String)
    (before : List Text) :
    Grammar.badFlag allowed repeatable before gs =
      Grammar.badFlag allowed repeatable before fs := by
  induction h generalizing before with
  | head fs => rw [Grammar.badFlag, Grammar.badFlag]
  | tail f _ ih => rw [Grammar.badFlag, Grammar.badFlag, ih]

end Flag.Revalued

namespace Grammar

variable {α β γ : Type} {cx : Context} {s : Statement} {k : Keyword}
  {raw flag v w name value : Text}
  {fs gs : List Flag} {e : Failure} {seen : Visibility}

/-! ## Words that come to the same -/

theorem mapM'_of_revalued {f : Flag → Grammar β} (h : Flag.Revalued flag v w fs gs)
    (hf : f ⟨flag, some w⟩ cx = f ⟨flag, some v⟩ cx) : gs.mapM' f cx = fs.mapM' f cx := by
  induction h with
  | head fs =>
    rw [List.mapM'_cons, List.mapM'_cons]
    exact bind_congr_run hf fun _ => rfl
  | tail g _ ih =>
    rw [List.mapM'_cons, List.mapM'_cons]
    exact bind_congr_run rfl fun _ => bind_congr_run ih fun _ => rfl

theorem flagValues_of_revalued (h : Flag.Revalued flag v w s.flags fs)
    (hword : wordValue seen w cx = wordValue seen v cx) (name : String) :
    flagValues (s.withFlags raw fs) name seen cx = flagValues s name seen cx := by
  by_cases hname : flag = name.toList
  · subst hname
    exact bind_congr_run (mapM'_of_revalued h.filter_self hword) fun _ => rfl
  · exact congrFun (flagValues_withFlags (h.filter_of_ne hname) seen) cx

theorem checkFlags_of_revalued (h : Flag.Revalued flag v w s.flags fs) :
    checkFlags (s.withFlags raw fs) k.flags k.repeatable = checkFlags s k.flags k.repeatable := by
  have hflags : (s.withFlags raw fs).flags = fs := rfl
  rw [checkFlags, checkFlags, hflags, h.badFlag_eq]
  rfl

/-- Flags are alike if one of them, which is no switch, gets a value that is the same as a word. -/
theorem flagsAlike_of_revalued (h : Flag.Revalued flag v w s.flags fs)
    (hword : wordValue k.seen w cx = wordValue k.seen v cx)
    (hswitch : ∀ switch ∈ k.switches, flag ≠ switch.toList) : FlagsAlike cx k s raw fs where
  checks := congrFun (checkFlags_of_revalued h) cx
  isEmpty := h.isEmpty_eq
  values := flagValues_of_revalued h hword
  switches switch hs := congrFun (flagSwitch_withFlags (h.filter_of_ne (hswitch switch hs))) cx

/-- **A reference is the same word as what it stands for.** -/
theorem wordValue_bare {scope : Scope} (hcx : cx.scope = some scope)
    (he : scope.escape ∈ escapeChoices) (hn : scope.Shows seen name value) (hv : '$' ∉ value) :
    wordValue seen (Reference.bare name) cx = wordValue seen value cx := by
  have hplain : filling cx seen .word (Reference.bare name) = .literal value := by
    have hfill : filling cx seen .word (Reference.bare name) =
        .plain name (seen.lookup scope name) := by
      rw [← Expansion.ofText_bare (escape_ne_of_choice he).1 hn.isName .word, filling, hcx]
      cases seen <;> rfl
    obtain ⟨b, hb, hvalue⟩ := Option.bind_eq_some_iff.mp hn.bound
    rw [hfill, Expansion.plain, hb, Option.bind_some, hvalue]
    rfl
  rw [wordValue_run, wordValue_run, hplain, filling_of_dollarless hv]

/-! ## Failures that a grammar does not have -/

/-- A grammar does not fail in this way. -/
def Avoids (cx : Context) (e : Failure) (x : Grammar α) : Prop := Fails cx (· ≠ e) x

theorem avoids_of_ok {x : Grammar α} {a : α} (h : (x cx).result = .ok a) : Avoids cx e x :=
  fails_of_ok h

theorem avoids_bind {x : Grammar α} {f : α → Grammar β} (hx : Avoids cx e x)
    (hf : ∀ a, Avoids cx e (f a)) : Avoids cx e (x >>= f) := fails_bind hx hf

theorem avoids_malformed {fault fault' : Fault} (h : fault ≠ fault') :
    Avoids cx (.malformed k fault' s.lines) (malformed s fault : Grammar α) := by
  refine fails_fail fun he => ?_
  cases he
  exact h rfl

/-- Asking for values does not refuse a switch. -/
theorem avoids_flagValues (other : String) (seen : Visibility) :
    Avoids cx (.malformed k (.badSwitch flag w) s.lines) (flagValues s other seen) := by
  refine avoids_bind (fails_mapM' (fun f => ?_) _) fun _ => avoids_of_ok rfl
  split
  · exact avoids_malformed (by simp)
  · exact avoids_of_ok (congrArg Outcome.result (wordValue_run seen _ cx))

/-- A switch is refused with its own name and the value that it has. -/
theorem avoids_flagSwitch (switch : String)
    (h : ∀ f, s.flag? switch.toList = some f → switch.toList = flag → f.value ≠ some w) :
    Avoids cx (.malformed k (.badSwitch flag w) s.lines) (flagSwitch s switch) := by
  rw [flagSwitch]
  cases hf : s.flag? switch.toList with
  | none => exact avoids_of_ok rfl
  | some f =>
    dsimp only
    cases hvalue : f.value with
    | none => exact avoids_of_ok rfl
    | some value =>
      dsimp only
      split
      · exact avoids_of_ok rfl
      · split
        · exact avoids_of_ok rfl
        · refine avoids_malformed fun hfault => ?_
          injection hfault with hname hw
          exact h f hf hname (hvalue.trans (congrArg some hw))

theorem avoids_transfer (chown chmod : Option Text) (link : Bool) (exclude : List Text) :
    Avoids cx (.malformed k (.badSwitch flag w) s.lines) (transfer s chown chmod link exclude) := by
  refine avoids_bind ?_ fun ps => ?_
  · rw [paths]
    split
    · refine avoids_bind (fails_mapM' (fun item => ?_) _) fun _ => avoids_of_ok rfl
      exact avoids_of_ok (congrArg Outcome.result (expand_run _ _ item cx))
    · rename_i t _
      exact avoids_bind (avoids_of_ok (congrArg Outcome.result (words_run t cx))) fun _ =>
        avoids_of_ok rfl
  · dsimp only
    split
    · exact avoids_malformed (by simp)
    · split
      · exact avoids_malformed (by simp)
      · exact avoids_of_ok rfl

/-- Behind their switches COPY and ADD read alike. -/
theorem avoids_transferred (chown chmod : Option Text) (link : Bool) (f : Transfer → Step) :
    Avoids cx (.malformed k (.badSwitch flag w) s.lines) (do
      let exclude ← flagValues s "exclude" .everywhere
      return f (← transfer s chown chmod link exclude)) :=
  avoids_bind (avoids_flagValues _ _) fun _ =>
    avoids_bind (avoids_transfer _ _ _ _) fun _ => avoids_of_ok rfl

/-! ## Readings that part at a switch -/

/-- Two readings come to the same if what is before a switch fails; if it does not, the other one
fails in a way in which the first does not. -/
def Parts (cx : Context) (e : Failure) (before : Grammar Unit) (x' x : Grammar α) : Prop :=
  ((∃ e', (before cx).result = .error e') ∧ (x' cx).result = (x cx).result) ∨
    ((before cx).result = .ok () ∧ (x' cx).result = .error e ∧ (x cx).result ≠ .error e)

theorem parts_bind {x x' : Grammar γ} {before : γ → Grammar Unit} {f f' : γ → Grammar α}
    (hx : x' cx = x cx) (h : ∀ a, (x cx).result = .ok a → Parts cx e (before a) (f' a) (f a)) :
    Parts cx e (x >>= before) (x' >>= f') (x >>= f) := by
  rw [Parts, bind_run, bind_run, bind_run, andThen, andThen, andThen, hx]
  cases hr : (x cx).result with
  | error e' => exact .inl ⟨⟨e', rfl⟩, rfl⟩
  | ok a => exact h a hr

theorem parts_map {x x' : Grammar α} {before : Grammar Unit} (f : α → β)
    (h : Parts cx e before x' x) :
    Parts cx e before (f <$> x') (f <$> x) := by
  rw [Parts, map_run, map_run]
  obtain ⟨hbefore, hsame⟩ | ⟨hbefore, hx', hx⟩ := h
  · exact .inl ⟨hbefore, congrArg (Except.map f) hsame⟩
  · refine .inr ⟨hbefore, congrArg (Except.map f) hx', ?_⟩
    cases hr : (x cx).result with
    | error e' => exact fun he => hx (hr.trans (congrArg Except.error (Except.error.inj he)))
    | ok a => exact fun he => nomatch he

/-- Where two readings part, they come to the same exactly if what is before fails. -/
theorem Parts.eq_iff {before : Grammar Unit} {x x' : Grammar α} (h : Parts cx e before x' x) :
    (x' cx).result = (x cx).result ↔ ∃ e', (before cx).result = .error e' := by
  obtain ⟨hbefore, hsame⟩ | ⟨hbefore, hx', hx⟩ := h
  · exact iff_of_true hsame hbefore
  · refine iff_of_false (fun hsame => hx (hsame.symm.trans hx')) ?_
    rintro ⟨e', he'⟩
    rw [hbefore] at he'
    cases he'

theorem Parts.eq_error {before : Grammar Unit} {x x' : Grammar α} (h : Parts cx e before x' x)
    (hbefore : (before cx).result = .ok ()) : (x' cx).result = .error e := by
  obtain ⟨⟨e', he'⟩, -⟩ | ⟨-, hx', -⟩ := h
  · rw [hbefore] at he'
    cases he'
  · exact hx'

/-- What COPY reads before a switch. -/
def beforeCopySwitch (s : Statement) (switch : String) : Grammar Unit := do
  checkFlags s copyFlags ["exclude"]
  let value ← flagValue s "from" .everywhere
  let _ ← optionalSource s value
  let _ ← flagValue s "chown" .everywhere
  let _ ← flagValue s "chmod" .everywhere
  if switch = "parents" then
    let _ ← flagSwitch s "link"

/-- What ADD reads before a switch. -/
def beforeAddSwitch (s : Statement) (switch : String) : Grammar Unit := do
  checkFlags s Keyword.add.flags ["exclude"]
  let _ ← flagValue s "chown" .everywhere
  let _ ← flagValue s "chmod" .everywhere
  let _ ← flagValue s "checksum" .everywhere
  if switch = "link" then
    let _ ← flagSwitch s "keep-git-dir"

/-- What an instruction reads before it looks at a switch. -/
def beforeSwitch (s : Statement) (switch : String) : Grammar Unit :=
  match s.keyword with
  | .copy => beforeCopySwitch s switch
  | .add => beforeAddSwitch s switch
  | _ => pure ()

section Switches

variable {n : Text}

/-- A switch with a reference for its value is refused. -/
theorem flagSwitch_bare {switch : String}
    (h : Flag.Revalued switch.toList v (Reference.bare n) s.flags fs)
    (honce : (s.flags.filter (·.name == switch.toList)).length ≤ 1) :
    (flagSwitch (s.withFlags raw fs) switch cx).result =
      .error (.malformed s.keyword (.badSwitch switch.toList (Reference.bare n)) s.lines) := by
  have hflag : (s.withFlags raw fs).flag? switch.toList =
      some ⟨switch.toList, some (Reference.bare n)⟩ := (h.find?_eq honce).2
  rw [flagSwitch, hflag]
  rfl

/-- The switch that it is in the place of is not refused in that way. -/
theorem avoids_flagSwitch_self {switch : String}
    (h : Flag.Revalued switch.toList v (Reference.bare n) s.flags fs)
    (honce : (s.flags.filter (·.name == switch.toList)).length ≤ 1) (hv : '$' ∉ v) :
    Avoids cx (.malformed k (.badSwitch flag (Reference.bare n)) s.lines)
      (flagSwitch s switch) := by
  refine avoids_flagSwitch switch fun f hf _ hvalue => hv ?_
  have hfind : s.flag? switch.toList = some ⟨switch.toList, some v⟩ := (h.find?_eq honce).1
  rw [hfind] at hf
  cases hf
  rw [Option.some.inj hvalue]
  exact List.mem_cons_self

/-- The readings part at a switch with a reference for its value. -/
theorem parts_switch {switch : String} {f f' : Bool → Grammar α}
    (h : Flag.Revalued switch.toList v (Reference.bare n) s.flags fs)
    (honce : (s.flags.filter (·.name == switch.toList)).length ≤ 1) (hv : '$' ∉ v)
    (hf : ∀ on,
      Avoids cx (.malformed s.keyword (.badSwitch switch.toList (Reference.bare n)) s.lines)
        (f on)) :
    Parts cx (.malformed s.keyword (.badSwitch switch.toList (Reference.bare n)) s.lines) (pure ())
      (flagSwitch (s.withFlags raw fs) switch >>= f') (flagSwitch s switch >>= f) := by
  refine .inr ⟨rfl, ?_, fun he =>
    avoids_bind (avoids_flagSwitch_self h honce hv) hf _ he rfl⟩
  rw [bind_run, andThen, flagSwitch_bare h honce]

/-- A flag that passes the check stands once unless it may stand more than once. -/
theorem once_of_checkFlags {allowed repeatable : List String} {u : Unit}
    (h : (checkFlags s allowed repeatable cx).result = .ok u)
    (hname : repeatable.any (·.toList == name) = false) :
    (s.flags.filter (·.name == name)).length ≤ 1 := by
  rw [checkFlags] at h
  cases hbad : badFlag allowed repeatable [] s.flags with
  | none => exact (filter_of_badFlag hbad hname).2
  | some fault =>
    rw [hbad] at h
    cases h

theorem flagValue_of_revalued {other : String} (h : Flag.Revalued flag v w s.flags fs)
    (hne : flag ≠ other.toList) :
    flagValue (s.withFlags raw fs) other seen cx = flagValue s other seen cx :=
  bind_congr_run (congrFun (flagValues_withFlags (h.filter_of_ne hne) seen) cx) fun _ => rfl

variable {switch : String}

/-- COPY with a reference for the value of a switch. -/
theorem parts_copy (hswitch : switch ∈ Keyword.copy.switches) (hv : '$' ∉ v)
    (h : Flag.Revalued switch.toList v (Reference.bare n) s.flags fs) :
    Parts cx (.malformed s.keyword (.badSwitch switch.toList (Reference.bare n)) s.lines)
      (beforeCopySwitch s switch) (copy (s.withFlags raw fs)) (copy s) := by
  have hne := Keyword.switch_ne hswitch
  rw [copy_eq, copy_eq, beforeCopySwitch]
  refine parts_bind (congrFun (checkFlags_of_revalued (k := .copy) h) cx) fun _ hchecked => ?_
  have honce := once_of_checkFlags hchecked (Keyword.repeatable_of_switch hswitch)
  refine parts_bind (flagValue_of_revalued h (hne "from" (by decide))) fun _ _ => ?_
  refine parts_bind rfl fun source _ => ?_
  refine parts_bind (flagValue_of_revalued h (hne "chown" (by decide))) fun chown _ => ?_
  refine parts_bind (flagValue_of_revalued h (hne "chmod" (by decide))) fun chmod _ => ?_
  obtain rfl | rfl : switch = "link" ∨ switch = "parents" := by
    simpa [Keyword.switches] using hswitch
  · rw [if_neg (by decide)]
    refine parts_switch h honce hv fun link => ?_
    exact avoids_bind (avoids_flagSwitch "parents" fun _ _ hname => absurd hname (by decide))
      fun parents => avoids_transferred _ _ link (.copy · source parents)
  · rw [if_pos rfl]
    refine parts_bind (congrFun (flagSwitch_withFlags (h.filter_of_ne (by decide))) cx)
      fun link _ => ?_
    exact parts_switch h honce hv fun parents =>
      avoids_transferred _ _ link (.copy · source parents)

/-- ADD with a reference for the value of a switch. -/
theorem parts_add (hswitch : switch ∈ Keyword.add.switches) (hv : '$' ∉ v)
    (h : Flag.Revalued switch.toList v (Reference.bare n) s.flags fs) :
    Parts cx (.malformed s.keyword (.badSwitch switch.toList (Reference.bare n)) s.lines)
      (beforeAddSwitch s switch) (add (s.withFlags raw fs)) (add s) := by
  have hne := Keyword.switch_ne hswitch
  rw [beforeAddSwitch]
  refine parts_bind (congrFun (checkFlags_of_revalued (k := .add) h) cx) fun _ hchecked => ?_
  have honce := once_of_checkFlags hchecked (Keyword.repeatable_of_switch hswitch)
  refine parts_bind (flagValue_of_revalued h (hne "chown" (by decide))) fun chown _ => ?_
  refine parts_bind (flagValue_of_revalued h (hne "chmod" (by decide))) fun chmod _ => ?_
  refine parts_bind (flagValue_of_revalued h (hne "checksum" (by decide))) fun checksum _ => ?_
  obtain rfl | rfl : switch = "keep-git-dir" ∨ switch = "link" := by
    simpa [Keyword.switches] using hswitch
  · rw [if_neg (by decide)]
    refine parts_switch h honce hv fun keepGitDir => ?_
    exact avoids_bind (avoids_flagSwitch "link" fun _ _ hname => absurd hname (by decide))
      fun link => avoids_transferred _ _ link (.add · checksum keepGitDir)
  · rw [if_pos rfl]
    refine parts_bind (congrFun (flagSwitch_withFlags (h.filter_of_ne (by decide))) cx)
      fun keepGitDir _ => ?_
    exact parts_switch h honce hv fun link =>
      avoids_transferred _ _ link (.add · checksum keepGitDir)

/-- **An instruction with a reference for the value of a switch.** -/
theorem parts_instruction (hswitch : switch ∈ s.keyword.switches) (hv : '$' ∉ v)
    (h : Flag.Revalued switch.toList v (Reference.bare n) s.flags fs) :
    Parts cx (.malformed s.keyword (.badSwitch switch.toList (Reference.bare n)) s.lines)
      (beforeSwitch s switch) (instruction (s.withFlags raw fs)) (instruction s) := by
  obtain hk | hk := Keyword.eq_of_switch hswitch
  · have hcopy : ∀ t : Statement, t.keyword = .copy → instruction t = .step <$> copy t := by
      intro t ht
      rw [instruction, step, ht]
    have hbefore : beforeSwitch s switch = beforeCopySwitch s switch := by rw [beforeSwitch, hk]
    rw [hbefore, hcopy s hk, hcopy (s.withFlags raw fs) hk]
    exact parts_map _ (parts_copy (hk ▸ hswitch) hv h)
  · have hadd : ∀ t : Statement, t.keyword = .add → instruction t = .step <$> add t := by
      intro t ht
      rw [instruction, step, ht]
    have hbefore : beforeSwitch s switch = beforeAddSwitch s switch := by rw [beforeSwitch, hk]
    rw [hbefore, hadd s hk, hadd (s.withFlags raw fs) hk]
    exact parts_map _ (parts_add (hk ▸ hswitch) hv h)

end Switches

/-! ## Instructions -/

/-- **Where a flag may have a reference for its value.**  Let a statement have a flag with a value
without dollar signs, and let a name stand for that value, before the first stage if it is a FROM.

* If the flag is no switch, the statement comes to the same with a reference to that name for the
  value, failures included.
* If it is a switch of COPY or ADD, it does so exactly if the statement fails before it looks at the
  switch.  Otherwise the reference is refused, whatever the value is. -/
theorem instruction_reference_iff {scope : Scope} (hk : s.keyword.acceptsFlags = true)
    (hcx : cx.scope = some scope) (he : scope.escape ∈ escapeChoices)
    (hn : scope.Shows s.keyword.seen name v) (hv : '$' ∉ v)
    (h : Flag.Revalued flag v (Reference.bare name) s.flags fs) (raw : Text) :
    ((∀ switch ∈ s.keyword.switches, flag ≠ switch.toList) →
      instruction (s.withFlags raw fs) cx = instruction s cx) ∧
    ∀ switch ∈ s.keyword.switches, flag = switch.toList →
      ((instruction (s.withFlags raw fs) cx).result = (instruction s cx).result ↔
        ∃ e, (beforeSwitch s switch cx).result = .error e) ∧
      ((beforeSwitch s switch cx).result = .ok () →
        (instruction (s.withFlags raw fs) cx).result =
          .error (.malformed s.keyword (.badSwitch flag (Reference.bare name)) s.lines)) := by
  constructor
  · intro hswitch
    have hword := wordValue_bare hcx he hn hv
    exact (instruction_of_flagsAlike hk (flagsAlike_of_revalued h hword hswitch)).1
  · rintro switch hswitch rfl
    have hparts : Parts cx _ (beforeSwitch s switch) (instruction (s.withFlags raw fs))
      (instruction s) := parts_instruction hswitch hv h
    exact ⟨hparts.eq_iff, hparts.eq_error⟩

/-- A COPY with a value and a switch. -/
def owningCopy : Statement :=
  { keyword := .copy
    rawArgs := "--chown=true --link=true a b".toList
    flags := [⟨"chown".toList, some "true".toList⟩, ⟨"link".toList, some "true".toList⟩]
    args := .text "a b".toList
    lines := .single 2
    heredocs := [] }

/-- The variable `N`, which is `true`. -/
def truth : Scope :=
  { escape := defaultEscape
    stages := .writing [] [⟨"N".toList, some "true".toList, .env, 1, .stage 0⟩] }

/-- The owner may be given by reference; the switch may not. -/
theorem instruction_reference_iff_copy :
    let cx := truth.context [none]
    let owner : List Flag :=
      [⟨"chown".toList, some "$N".toList⟩, ⟨"link".toList, some "true".toList⟩]
    let switched : List Flag :=
      [⟨"chown".toList, some "true".toList⟩, ⟨"link".toList, some "$N".toList⟩]
    instruction (owningCopy.withFlags "--chown=$N --link=true a b".toList owner) cx =
        instruction owningCopy cx ∧
      (instruction owningCopy cx).result =
        .ok (.step (.copy ⟨["a".toList], "b".toList, some "true".toList, none, true, [], [], false⟩
          none false)) ∧
      (instruction (owningCopy.withFlags "--chown=true --link=$N a b".toList switched) cx).result =
        .error (.malformed .copy (.badSwitch "link".toList "$N".toList) (.single 2)) := by
  intro cx owner switched
  have hshows : truth.Shows .everywhere "N".toList "true".toList := ⟨by decide, by decide⟩
  have howner : Flag.Revalued "chown".toList "true".toList (Reference.bare "N".toList)
      owningCopy.flags owner := .head _
  have hswitched : Flag.Revalued "link".toList "true".toList (Reference.bare "N".toList)
      owningCopy.flags switched := .tail _ (.head _)
  have hcx : cx.scope = some truth := rfl
  obtain ⟨hsame, -⟩ := instruction_reference_iff (s := owningCopy) rfl hcx (by decide)
    hshows (by decide) howner "--chown=$N --link=true a b".toList
  obtain ⟨-, hrefused⟩ := instruction_reference_iff (s := owningCopy) rfl hcx (by decide)
    hshows (by decide) hswitched "--chown=true --link=$N a b".toList
  refine ⟨hsame (by decide), by decide +kernel, ?_⟩
  exact (hrefused "link" (by decide) rfl).2 (by decide +kernel)

end Grammar

end Containerfile
