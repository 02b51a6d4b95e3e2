import Containerfile.Proofs.Grammar.Basic

/-! # What grammars yield

`Grammar.Yields cx P x` says that every result that the grammar `x` reaches in the context `cx` has
the property `P`; it says nothing if there is a failure.  There is one rule for each way of putting
grammars together, so a proof about a grammar follows its text.

`Grammar.Fails cx P x` says the same of failures: there is none without the property `P`. -/
namespace Containerfile.Grammar

variable {α β : Type} {cx : Context} {P : α → Prop} {Q : β → Prop}

/-- Every result of a grammar in a context has a property. -/
def Yields (cx : Context) (P : α → Prop) (x : Grammar α) : Prop :=
  ∀ a, (x cx).result = .ok a → P a

theorem yields_pure {a : α} (h : P a) : Yields cx P (pure a) := by
  intro b hb
  cases hb
  exact h

theorem yields_bind {x : Grammar α} {f : α → Grammar β} (hx : Yields cx P x)
    (hf : ∀ a, P a → Yields cx Q (f a)) : Yields cx Q (x >>= f) := by
  intro b hb
  obtain ⟨a, ha, hb⟩ := ok_of_bind hb
  exact hf a (hx a ha) b hb

theorem yields_map {x : Grammar α} {f : α → β} (h : Yields cx (fun a => Q (f a)) x) :
    Yields cx Q (f <$> x) := by
  intro b hb
  obtain ⟨a, ha, rfl⟩ := ok_of_map hb
  exact h a ha

theorem yields_fail (e : Failure) : Yields cx P (fail e) := by
  intro a ha
  cases ha

theorem yields_malformed (s : Statement) (fault : Fault) : Yields cx P (malformed s fault) :=
  yields_fail _

theorem yields_ofExcept {x : Except Failure α} (h : ∀ a, x = .ok a → P a) :
    Yields cx P (ofExcept x) := h

theorem yields_context : Yields cx (fun d => d = cx) context := by
  intro d hd
  cases hd
  rfl

theorem yields_trivial (x : Grammar α) : Yields cx (fun _ => True) x := fun _ _ => trivial

/-- What is read first may be anything where what follows always yields the property. -/
theorem yields_after {x : Grammar α} {f : α → Grammar β} (hf : ∀ a, Yields cx Q (f a)) :
    Yields cx Q (x >>= f) := yields_bind (yields_trivial x) fun a _ => hf a

theorem Yields.mono {R : α → Prop} {x : Grammar α} (h : Yields cx P x) (hR : ∀ a, P a → R a) :
    Yields cx R x := fun a ha => hR a (h a ha)

theorem yields_mapM' {f : α → Grammar β} {l : List α} (h : ∀ a ∈ l, Yields cx Q (f a)) :
    Yields cx (fun bs => ∀ b ∈ bs, Q b) (l.mapM' f) := by
  induction l with
  | nil => exact yields_pure (by simp)
  | cons a l ih =>
    rw [List.mapM'_cons]
    refine yields_bind (h a List.mem_cons_self) fun b hb => ?_
    refine yields_bind (ih fun c hc => h c (List.mem_cons_of_mem _ hc)) fun bs hbs => ?_
    exact yields_pure (List.forall_mem_cons.mpr ⟨hb, hbs⟩)

/-! ## Failures -/

/-- Every failure of a grammar in a context has a property. -/
def Fails (cx : Context) (P : Failure → Prop) (x : Grammar α) : Prop :=
  ∀ e, (x cx).result = .error e → P e

variable {F : Failure → Prop}

theorem fails_of_ok {x : Grammar α} {a : α} (h : (x cx).result = .ok a) : Fails cx F x := by
  intro e he
  rw [h] at he
  cases he

theorem fails_pure (a : α) : Fails cx F (pure a) := fails_of_ok rfl

theorem fails_fail {e : Failure} (h : F e) : Fails cx F (fail e : Grammar α) := by
  intro e' he
  cases he
  exact h

theorem fails_bind {x : Grammar α} {f : α → Grammar β} (hx : Fails cx F x)
    (hf : ∀ a, Fails cx F (f a)) : Fails cx F (x >>= f) := by
  intro e he
  rw [bind_run, andThen] at he
  cases hr : (x cx).result with
  | error e' =>
    rw [hr] at he
    cases he
    exact hx e hr
  | ok a =>
    rw [hr] at he
    exact hf a e he

theorem fails_map {x : Grammar α} (f : α → β) (hx : Fails cx F x) : Fails cx F (f <$> x) := by
  rw [map_eq_pure_bind]
  exact fails_bind hx fun a => fails_pure (f a)

theorem fails_mapM' {f : α → Grammar β} (hf : ∀ a, Fails cx F (f a)) (l : List α) :
    Fails cx F (l.mapM' f) := by
  induction l with
  | nil => exact fails_pure []
  | cons a l ih =>
    rw [List.mapM'_cons]
    exact fails_bind (hf a) fun b => fails_bind ih fun bs => fails_pure (b :: bs)

end Containerfile.Grammar
