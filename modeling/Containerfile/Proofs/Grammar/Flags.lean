import Containerfile.Proofs.Grammar.Shape
import Containerfile.Proofs.Grammar.Triggers

/-! # Flags of a statement

An instruction looks at its flags in three ways.  It checks them as a whole; it asks for the values
of all flags of a name, or whether a flag of a name is on; and HEALTHCHECK asks whether there are
any.  So a statement is read in the same way with other flags that give the same answers in a
context: `Grammar.FlagsAlike`, with one lemma for each keyword that takes flags, up to
`Grammar.instruction_of_flagsAlike`.

Flags that are rearranged give the same answers everywhere if they pass the check.  The check itself
does not ask for their order then, since it comes down to which names there are and how often
(`Grammar.badFlag_eq_none_iff`).

Main statement: `Grammar.instruction_rearranged`. -/
namespace Containerfile

namespace Keyword

/-- The flags that may stand with a keyword. -/
def flags : Keyword → List String
  | fromImage => ["platform"]
  | run => ["mount", "network", "security"]
  | copy => Grammar.copyFlags
  | add => ["chown", "chmod", "checksum", "keep-git-dir", "link", "exclude"]
  | healthcheck => ["interval", "timeout", "start-period", "start-interval", "retries"]
  | _ => []

/-- Those that may stand more than once. -/
def repeatable : Keyword → List String
  | run => ["mount"]
  | copy | add => ["exclude"]
  | _ => []

/-- Those that are on or off. -/
def switches : Keyword → List String
  | copy => ["link", "parents"]
  | add => ["keep-git-dir", "link"]
  | _ => []

/-- The variables that a keyword sees. -/
def seen : Keyword → Grammar.Visibility
  | fromImage => .globalOnly
  | _ => .everywhere

end Keyword

/-- A statement with other flags, and written in another way. -/
def Statement.withFlags (s : Statement) (rawArgs : Text) (flags : List Flag) : Statement :=
  { s with rawArgs := rawArgs, flags := flags }

/-- The same flags in another order, in which those of one name keep theirs. -/
structure Flag.Rearranged (fs gs : List Flag) : Prop where
  perm : gs.Perm fs
  order : ∀ name, gs.filter (·.name == name) = fs.filter (·.name == name)

/-- Flags of two names may change places. -/
theorem Flag.rearranged_swap {f g : Flag} (hne : f.name ≠ g.name) (fs : List Flag) :
    Rearranged (f :: g :: fs) (g :: f :: fs) := by
  refine ⟨.swap f g fs, fun name => ?_⟩
  by_cases hf : f.name = name
  · have hg : g.name ≠ name := fun hg => hne (hf.trans hg.symm)
    simp [hf, hg]
  · simp [List.filter_cons, hf]

namespace Grammar

variable {α β : Type} {cx : Context} {s : Statement} {k : Keyword} {raw : Text} {fs gs : List Flag}
  {name : String} {before : List Text} {allowed repeatable : List String}

/-! ## The check -/

/-- **Flags pass the check** exactly if they are all known, and those that may stand once do. -/
theorem badFlag_eq_none_iff :
    badFlag allowed repeatable before fs = none ↔
      (∀ f ∈ fs, allowed.any (·.toList == f.name) = true) ∧
        ∀ n, repeatable.any (·.toList == n) = false →
          (before.contains n = true → ∀ f ∈ fs, f.name ≠ n) ∧
            (fs.filter (·.name == n)).length ≤ 1 := by
  constructor
  · intro h
    refine ⟨?_, fun n hn => filter_of_badFlag h hn⟩
    induction fs generalizing before with
    | nil => simp
    | cons f fs ih =>
      rw [badFlag] at h
      split at h
      · cases h
      · rename_i hallowed
        split at h
        · cases h
        · exact List.forall_mem_cons.mpr ⟨by simpa using hallowed, ih h⟩
  · rintro ⟨hallowed, honce⟩
    induction fs generalizing before with
    | nil => rfl
    | cons f fs ih =>
      rw [List.forall_mem_cons] at hallowed
      have hnew : before.contains f.name = true → repeatable.any (·.toList == f.name) = true := by
        intro hin
        by_contra hrepeatable
        exact (honce f.name (Bool.not_eq_true _ ▸ hrepeatable)).1 hin f List.mem_cons_self rfl
      rw [badFlag, hallowed.1, if_neg (by decide), if_neg (by simpa using hnew)]
      refine ih hallowed.2 fun n hn => ?_
      obtain ⟨hbefore, hlength⟩ := honce n hn
      by_cases hf : f.name = n
      · rw [List.filter_cons_of_pos (by simp [hf]), List.length_cons] at hlength
        have hnone : fs.filter (·.name == n) = [] := List.eq_nil_of_length_eq_zero (by omega)
        refine ⟨fun _ => by simpa using hnone, by simp [hnone]⟩
      · rw [List.filter_cons_of_neg (by simp [hf])] at hlength
        refine ⟨fun hin => ?_, hlength⟩
        rw [List.contains_cons, beq_eq_false_iff_ne.mpr (Ne.symm hf), Bool.false_or] at hin
        exact (List.forall_mem_cons.mp (hbefore hin)).2

/-- What passes the check passes it in any order. -/
theorem badFlag_rearranged (h : Flag.Rearranged fs gs)
    (hfs : badFlag allowed repeatable [] fs = none) : badFlag allowed repeatable [] gs = none := by
  rw [badFlag_eq_none_iff] at hfs ⊢
  obtain ⟨hallowed, honce⟩ := hfs
  refine ⟨fun f hf => hallowed f (h.perm.mem_iff.mp hf), fun n hn => ⟨fun hin => ?_, ?_⟩⟩
  · exact absurd hin (by simp)
  · rw [h.order]
    exact (honce n hn).2

/-! ## Flags that come to the same -/

theorem flagValues_withFlags
    (h : gs.filter (·.name == name.toList) = s.flags.filter (·.name == name.toList))
    (v : Visibility) :
    flagValues (s.withFlags raw gs) name v = flagValues s name v := by
  have hfilter : (s.withFlags raw gs).flags.filter (·.name == name.toList) =
      s.flags.filter (·.name == name.toList) := h
  rw [flagValues, hfilter]
  rfl

theorem flagSwitch_withFlags
    (h : gs.filter (·.name == name.toList) = s.flags.filter (·.name == name.toList)) :
    flagSwitch (s.withFlags raw gs) name = flagSwitch s name := by
  have hflag : (s.withFlags raw gs).flag? name.toList = s.flag? name.toList := by
    rw [Statement.flag?, Statement.flag?, ← List.head?_filter, ← List.head?_filter]
    exact congrArg List.head? h
  rw [flagSwitch, hflag]
  rfl

/-- Other flags that an instruction cannot tell from those of a statement in a context. -/
structure FlagsAlike (cx : Context) (k : Keyword) (s : Statement) (raw : Text) (fs : List Flag) :
    Prop where
  checks : checkFlags (s.withFlags raw fs) k.flags k.repeatable cx =
    checkFlags s k.flags k.repeatable cx
  isEmpty : fs.isEmpty = s.flags.isEmpty
  values : ∀ name, flagValues (s.withFlags raw fs) name k.seen cx = flagValues s name k.seen cx
  switches : ∀ name ∈ k.switches, flagSwitch (s.withFlags raw fs) name cx = flagSwitch s name cx

/-- Grammars that begin alike and go on alike. -/
theorem bind_congr_run {x x' : Grammar α} {f f' : α → Grammar β} (hx : x' cx = x cx)
    (hf : ∀ a, f' a cx = f a cx) : (x' >>= f') cx = (x >>= f) cx := by
  rw [bind_run, bind_run, andThen, andThen, hx]
  cases (x cx).result with
  | error e => rfl
  | ok a => simp only [hf a]

theorem map_congr_run {x x' : Grammar α} {f : α → β} (hx : x' cx = x cx) :
    (f <$> x') cx = (f <$> x) cx := by
  rw [map_run, map_run, hx]

theorem FlagsAlike.value (h : FlagsAlike cx k s raw fs) (name : String) :
    flagValue (s.withFlags raw fs) name k.seen cx = flagValue s name k.seen cx :=
  bind_congr_run (h.values name) fun _ => rfl

theorem fromImage_of_flagsAlike (h : FlagsAlike cx .fromImage s raw fs) :
    fromImage (s.withFlags raw fs) cx = fromImage s cx := by
  refine bind_congr_run h.checks fun _ => ?_
  exact bind_congr_run (h.value "platform") fun _ => rfl

theorem run_of_flagsAlike (h : FlagsAlike cx .run s raw fs) :
    run (s.withFlags raw fs) cx = run s cx := by
  refine bind_congr_run h.checks fun _ => ?_
  refine bind_congr_run (h.values "mount") fun _ => ?_
  refine bind_congr_run rfl fun _ => ?_
  refine bind_congr_run (h.value "network") fun _ => ?_
  refine bind_congr_run rfl fun _ => ?_
  exact bind_congr_run (h.value "security") fun _ => rfl

theorem copy_of_flagsAlike (h : FlagsAlike cx .copy s raw fs) :
    copy (s.withFlags raw fs) cx = copy s cx := by
  rw [copy_eq, copy_eq]
  refine bind_congr_run h.checks fun _ => ?_
  refine bind_congr_run (h.value "from") fun _ => ?_
  refine bind_congr_run rfl fun _ => ?_
  refine bind_congr_run (h.value "chown") fun _ => ?_
  refine bind_congr_run (h.value "chmod") fun _ => ?_
  refine bind_congr_run (h.switches "link" (by decide)) fun _ => ?_
  refine bind_congr_run (h.switches "parents" (by decide)) fun _ => ?_
  exact bind_congr_run (h.values "exclude") fun _ => rfl

theorem add_of_flagsAlike (h : FlagsAlike cx .add s raw fs) :
    add (s.withFlags raw fs) cx = add s cx := by
  refine bind_congr_run h.checks fun _ => ?_
  refine bind_congr_run (h.value "chown") fun _ => ?_
  refine bind_congr_run (h.value "chmod") fun _ => ?_
  refine bind_congr_run (h.value "checksum") fun _ => ?_
  refine bind_congr_run (h.switches "keep-git-dir" (by decide)) fun _ => ?_
  refine bind_congr_run (h.switches "link" (by decide)) fun _ => ?_
  exact bind_congr_run (h.values "exclude") fun _ => rfl

theorem duration_of_flagsAlike (h : FlagsAlike cx .healthcheck s raw fs) (name : String) :
    duration (s.withFlags raw fs) name cx = duration s name cx :=
  bind_congr_run (h.value name) fun _ => rfl

theorem healthcheck_of_flagsAlike (h : FlagsAlike cx .healthcheck s raw fs) :
    healthcheck (s.withFlags raw fs) cx = healthcheck s cx := by
  refine bind_congr_run h.checks fun _ => ?_
  have htext : (s.withFlags raw fs).text = s.text := rfl
  have hflags : (s.withFlags raw fs).flags.isEmpty = s.flags.isEmpty := h.isEmpty
  rw [htext, hflags]
  dsimp only
  split
  · rfl
  · split
    · rfl
    · refine bind_congr_run rfl fun _ => ?_
      refine bind_congr_run (duration_of_flagsAlike h _) fun _ => ?_
      refine bind_congr_run (duration_of_flagsAlike h _) fun _ => ?_
      refine bind_congr_run (duration_of_flagsAlike h _) fun _ => ?_
      refine bind_congr_run (duration_of_flagsAlike h _) fun _ => ?_
      exact bind_congr_run (bind_congr_run (h.value "retries") fun _ => rfl) fun _ => rfl

/-- **An instruction is read in the same way with flags that are alike.** -/
theorem instruction_of_flagsAlike (hk : s.keyword.acceptsFlags = true)
    (h : FlagsAlike cx s.keyword s raw fs) :
    instruction (s.withFlags raw fs) cx = instruction s cx ∧
      step (s.withFlags raw fs) cx = step s cx := by
  have hkeyword : (s.withFlags raw fs).keyword = s.keyword := rfl
  unfold instruction step
  rw [hkeyword]
  generalize s.keyword = k at hk h
  cases k with
  | fromImage => exact ⟨map_congr_run (fromImage_of_flagsAlike h), rfl⟩
  | run => exact ⟨map_congr_run (run_of_flagsAlike h), run_of_flagsAlike h⟩
  | copy => exact ⟨map_congr_run (copy_of_flagsAlike h), copy_of_flagsAlike h⟩
  | add => exact ⟨map_congr_run (add_of_flagsAlike h), add_of_flagsAlike h⟩
  | healthcheck => exact ⟨map_congr_run (healthcheck_of_flagsAlike h), healthcheck_of_flagsAlike h⟩
  | _ => cases hk

/-! ## Flags in another order -/

/-- Checked flags that are rearranged are alike in every context. -/
theorem flagsAlike_of_rearranged (h : Flag.Rearranged s.flags fs)
    (hchecked : badFlag k.flags k.repeatable [] s.flags = none) : FlagsAlike cx k s raw fs where
  checks := by
    have hflags : (s.withFlags raw fs).flags = fs := rfl
    rw [checkFlags, checkFlags, hflags, hchecked, badFlag_rearranged h hchecked]
  isEmpty := h.perm.isEmpty_eq
  values name := congrFun (flagValues_withFlags (h.order _) k.seen) cx
  switches name _ := congrFun (flagSwitch_withFlags (h.order _)) cx

/-- **The order of flags does not matter.**  If the flags of a statement pass the check of its
keyword, then the statement comes to the same with them in any order that keeps the order of those
of one name, failures and the references in their order included.  So it does as a trigger. -/
theorem instruction_rearranged (hk : s.keyword.acceptsFlags = true)
    (hchecked : badFlag s.keyword.flags s.keyword.repeatable [] s.flags = none)
    (h : Flag.Rearranged s.flags fs) (raw : Text) :
    instruction (s.withFlags raw fs) = instruction s ∧ step (s.withFlags raw fs) = step s := by
  have halike : ∀ cx, FlagsAlike cx s.keyword s raw fs :=
    fun cx => flagsAlike_of_rearranged h hchecked
  exact ⟨funext fun cx => (instruction_of_flagsAlike hk (halike cx)).1,
    funext fun cx => (instruction_of_flagsAlike hk (halike cx)).2⟩

/-- A RUN with flags that refer to undeclared names. -/
def mountingRun : Statement :=
  { keyword := .run
    rawArgs := "--mount=target=/a$A --network=$B --mount=type=ssh make".toList
    flags := [⟨"mount".toList, some "target=/a$A".toList⟩, ⟨"network".toList, some "$B".toList⟩,
      ⟨"mount".toList, some "type=ssh".toList⟩]
    args := .text "make".toList
    lines := .single 2
    heredocs := [] }

/-- Mounts are looked at before the network, wherever they stand. -/
theorem instruction_rearranged_run :
    let cx : Context := ⟨'\\', some { escape := '\\' }, [none], false⟩
    let fs : List Flag := [⟨"network".toList, some "$B".toList⟩,
      ⟨"mount".toList, some "target=/a$A".toList⟩, ⟨"mount".toList, some "type=ssh".toList⟩]
    badFlag mountingRun.keyword.flags mountingRun.keyword.repeatable [] mountingRun.flags = none ∧
      Flag.Rearranged mountingRun.flags fs ∧
      instruction (mountingRun.withFlags
        "--network=$B --mount=target=/a$A --mount=type=ssh make".toList fs) cx =
        instruction mountingRun cx ∧
      (instruction mountingRun cx).references = ["A".toList, "B".toList] := by
  intro cx fs
  have hchecked : badFlag mountingRun.keyword.flags mountingRun.keyword.repeatable []
      mountingRun.flags = none := by
    decide
  have h : Flag.Rearranged mountingRun.flags fs := Flag.rearranged_swap (by decide) _
  obtain ⟨hsame, -⟩ := instruction_rearranged (by decide) hchecked h
    "--network=$B --mount=target=/a$A --mount=type=ssh make".toList
  exact ⟨hchecked, h, congrFun hsame cx, by decide +kernel⟩

end Grammar

end Containerfile
