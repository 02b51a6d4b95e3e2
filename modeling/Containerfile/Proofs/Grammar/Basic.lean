import Containerfile.Grammar.Files
import Mathlib.Data.List.Forall2

/-! # Running grammars

What each building block of a grammar does in a context, one equation each, so that no grammar needs
to be taken apart below them.  `ok_of_bind` and `ok_of_map` go the other way, from a result that was
reached to the results before it.  COPY, whose source is optional, comes apart at its source
(`copy_eq`). -/
namespace Containerfile.Grammar

variable {α β : Type}

@[simp] theorem map_run (f : α → β) (x : Grammar α) (cx : Context) :
    (f <$> x) cx = ⟨(x cx).result.map f, (x cx).references⟩ := by
  rw [map_eq_pure_bind, bind_run, andThen]
  cases h : x cx with
  | mk result names => cases result <;> simp [Except.map]

@[simp] theorem context_run (cx : Context) : context cx = ⟨.ok cx, []⟩ := rfl

@[simp] theorem fail_run (e : Failure) (cx : Context) :
    (fail e : Grammar α) cx = ⟨.error e, []⟩ := rfl

@[simp] theorem malformed_run (s : Statement) (fault : Fault) (cx : Context) :
    (malformed s fault : Grammar α) cx = ⟨.error (.malformed s.keyword fault s.lines), []⟩ := rfl

@[simp] theorem ofExcept_run (x : Except Failure α) (cx : Context) : ofExcept x cx = ⟨x, []⟩ := rfl

@[simp] theorem rawWords_run (t : Text) (cx : Context) :
    rawWords t cx = ⟨.ok (Word.split cx.escape t), []⟩ := rfl

/-- **A result of two steps is a result of each.** -/
theorem ok_of_bind {x : Grammar α} {f : α → Grammar β} {cx : Context} {b : β}
    (h : ((x >>= f) cx).result = .ok b) :
    ∃ a, (x cx).result = .ok a ∧ (f a cx).result = .ok b := by
  rw [bind_run, andThen] at h
  cases hx : (x cx).result with
  | error e => rw [hx] at h; cases h
  | ok a => rw [hx] at h; exact ⟨a, rfl, h⟩

theorem ok_of_map {f : α → β} {x : Grammar α} {cx : Context} {b : β}
    (h : ((f <$> x) cx).result = .ok b) : ∃ a, (x cx).result = .ok a ∧ f a = b := by
  rw [map_run] at h
  cases hx : (x cx).result with
  | error e => rw [hx] at h; cases h
  | ok a => rw [hx] at h; exact ⟨a, rfl, Except.ok.inj h⟩

theorem mapM'_run {f : α → Grammar β} {g : α → β} {names : α → List Text} {cx : Context}
    {l : List α} (h : ∀ a ∈ l, f a cx = ⟨.ok (g a), names a⟩) :
    l.mapM' f cx = ⟨.ok (l.map g), l.flatMap names⟩ := by
  induction l with
  | nil => rfl
  | cons a l ih =>
    have hl : ∀ b ∈ l, f b cx = ⟨.ok (g b), names b⟩ := fun b hb => h b (List.mem_cons_of_mem _ hb)
    rw [List.mapM'_cons, bind_of_ok (h a List.mem_cons_self), bind_of_ok (ih hl)]
    simp

/-- **A list is read exactly if each of its members is.** -/
theorem mapM'_eq_ok_iff {f : α → Grammar β} {cx : Context} {l : List α} {bs : List β} :
    ((l.mapM' f) cx).result = .ok bs ↔ List.Forall₂ (fun a b => (f a cx).result = .ok b) l bs := by
  constructor
  · intro h
    induction l generalizing bs with
    | nil =>
      cases h
      exact .nil
    | cons a l ih =>
      rw [List.mapM'_cons] at h
      obtain ⟨b, hb, h⟩ := ok_of_bind h
      obtain ⟨bs, hbs, h⟩ := ok_of_bind h
      cases h
      exact .cons hb (ih hbs)
  · intro h
    induction h with
    | nil => rfl
    | cons hb _ ih => simp [List.mapM'_cons, bind_run, andThen, hb, ih, Except.map]

/-! ## Steps that may fail -/

theorem of_bind_eq_ok {ε α β : Type} {x : Except ε α} {g : α → Except ε β} {b : β}
    (h : (x >>= g) = .ok b) : ∃ a, x = .ok a ∧ g a = .ok b := by
  cases x with
  | error e => cases h
  | ok a => exact ⟨a, rfl, h⟩

/-- The same of lists as for grammars. -/
theorem exceptMapM'_eq_ok_iff {ε : Type} {f : α → Except ε β} {l : List α} {bs : List β} :
    l.mapM' f = .ok bs ↔ List.Forall₂ (fun a b => f a = .ok b) l bs := by
  constructor
  · intro h
    induction l generalizing bs with
    | nil =>
      cases h
      exact .nil
    | cons a l ih =>
      rw [List.mapM'_cons] at h
      obtain ⟨b, hb, h⟩ := of_bind_eq_ok h
      obtain ⟨bs, hbs, h⟩ := of_bind_eq_ok h
      cases h
      exact .cons hb (ih hbs)
  · intro h
    induction h with
    | nil => rfl
    | cons hb _ ih =>
      rw [List.mapM'_cons, hb, ih]
      rfl

/-- What a text is filled in to in a context.  Without a scope it stays as it is. -/
def filling (cx : Context) (v : Visibility) (mode : ExpandMode) (t : Text) : Expansion :=
  match cx.scope with
  | none => .literal t
  | some scope => expansion scope v mode t

@[simp] theorem expand_run (v : Visibility) (mode : ExpandMode) (t : Text) (cx : Context) :
    expand v mode t cx = ⟨.ok (filling cx v mode t).value, (filling cx v mode t).undeclared⟩ := by
  unfold expand filling
  cases cx.scope <;> rfl

@[simp] theorem word_run (v : Visibility) (raw : Text) (cx : Context) :
    word v raw cx =
      ⟨.ok (Word.unquote cx.escape (filling cx v .word raw).value),
        (filling cx v .word raw).undeclared⟩ := by
  simp [word, bind_run, andThen, Except.map]

@[simp] theorem wordValue_run (v : Visibility) (raw : Text) (cx : Context) :
    wordValue v raw cx =
      ⟨.ok (Word.value cx.escape (filling cx v .word raw).value),
        (filling cx v .word raw).undeclared⟩ := by
  simp [wordValue, Except.map, Word.unquote]

@[simp] theorem words_run (t : Text) (cx : Context) :
    words t cx =
      ⟨.ok ((Word.split cx.escape t).map fun raw =>
          Word.value cx.escape (filling cx .everywhere .word raw).value),
        (Word.split cx.escape t).flatMap fun raw =>
          (filling cx .everywhere .word raw).undeclared⟩ := by
  rw [words, bind_of_ok (rawWords_run t cx),
    mapM'_run fun raw _ => wordValue_run .everywhere raw cx]
  simp

/-- The image and the name of the stage are words of FROM. -/
theorem baseWords_mem {ws : List Text} {p : Text × Option Text} (h : baseWords ws = .ok p) :
    p.1 ∈ ws ∧ ∀ name ∈ p.2, name ∈ ws := by
  unfold baseWords at h
  split at h
  · cases h
  · cases h
    exact ⟨List.mem_singleton_self _, by simp⟩
  · split at h
    · cases h
      exact ⟨by simp, by simp⟩
    · cases h
  · cases h
  · cases h

/-! ## COPY -/

/-- The source of a COPY, if a value for it is given. -/
def optionalSource (s : Statement) : Option Text → Grammar (Option StageRef)
  | none => pure none
  | some value => some <$> source s value

/-- The rest of a COPY once its source is known. -/
def copyFrom (s : Statement) (source : Option StageRef) : Grammar Step := do
  let chown ← flagValue s "chown" .everywhere
  let chmod ← flagValue s "chmod" .everywhere
  let link ← flagSwitch s "link"
  let parents ← flagSwitch s "parents"
  let exclude ← flagValues s "exclude" .everywhere
  return .copy (← transfer s chown chmod link exclude) source parents

/-- **COPY reads its source, and then the same with and without one.** -/
theorem copy_eq (s : Statement) :
    copy s = (do
      checkFlags s ["from", "chown", "chmod", "link", "parents", "exclude"] ["exclude"]
      let value ← flagValue s "from" .everywhere
      copyFrom s (← optionalSource s value)) := by
  refine congrArg (checkFlags s _ _ >>= ·) (funext fun _ => ?_)
  refine congrArg (flagValue s "from" _ >>= ·) (funext fun value => ?_)
  cases value with
  | none => rfl
  | some value => rfl

end Containerfile.Grammar
