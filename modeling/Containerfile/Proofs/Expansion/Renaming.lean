import Containerfile.Proofs.Expansion.Literal
import Containerfile.Proofs.Expansion.Reference
import Containerfile.Proofs.Line.Renaming
import Containerfile.Scope.Basic

/-! # Variables with other characters

Filling in variables commutes with a renaming of characters that is done to the escape character and
to the values of the variables too; their names have no characters that are renamed.

With that, no step from a line to the value of a word depends on which of the two
escape characters is used.

Main statement: `Renaming.exchange_commutes`. -/
namespace Containerfile.Renaming

variable (σ : Renaming)

/-! ## References -/

theorem isSyntax_of_isNameStart {c : Char} (h : Reference.isNameStart c = true) :
    isSyntax c = true :=
  isSyntax_of_isNameChar (Reference.isNameChar_of_isNameStart h)

theorem isNameStart_char (c : Char) : Reference.isNameStart (σ.char c) = Reference.isNameStart c :=
  σ.of_isSyntax (fun _ => isSyntax_of_isNameStart) c

theorem takeWhile_isNameChar (t : Text) :
    (σ.text t).takeWhile Reference.isNameChar = t.takeWhile Reference.isNameChar :=
  σ.takeWhile_text (fun _ => isSyntax_of_isNameChar) t

theorem dropWhile_isNameChar (t : Text) :
    (σ.text t).dropWhile Reference.isNameChar = σ.text (t.dropWhile Reference.isNameChar) :=
  σ.dropWhile_text (fun _ => isSyntax_of_isNameChar) t

/-- A reference with the word of its modifier renamed. -/
def reference (r : Reference) : Reference :=
  { r with modifier := r.modifier.map fun m => (m.1, σ.text m.2) }

theorem upToBrace_text (depth : Nat) (t : Text) :
    Reference.upToBrace depth (σ.text t) =
      (Reference.upToBrace depth t).map fun p => (σ.text p.1, σ.text p.2) := by
  induction t generalizing depth with
  | nil => rfl
  | cons c t ih =>
    simp (disch := decide) only [text_cons, Reference.upToBrace, σ.char_eq_iff, ih]
    split
    · cases depth with
      | zero => rfl
      | succ depth => simp only [Option.map_map, Function.comp_def, text_cons]
    · simp only [Option.map_map, Function.comp_def, text_cons]

theorem readModifier_text (t : Text) :
    Reference.readModifier (σ.text t) =
      (Reference.readModifier t).map fun m => m.map fun m => (m.1, σ.text m.2) := by
  have hcolon : σ.char ':' = ':' := σ.keeps ':' (by decide)
  have hdash : σ.char '-' = '-' := σ.keeps '-' (by decide)
  have hplus : σ.char '+' = '+' := σ.keeps '+' (by decide)
  fun_cases Reference.readModifier t with
  | case1 => rfl
  | case2 word =>
    rw [text_cons, text_cons, hcolon, hdash]
    rfl
  | case3 word =>
    rw [text_cons, text_cons, hcolon, hplus]
    rfl
  | case4 word =>
    rw [text_cons, hdash]
    rfl
  | case5 word =>
    rw [text_cons, hplus]
    rfl
  | case6 t hnil hcolonDash hcolonPlus hdash hplus =>
    rw [Reference.readModifier]
    · rfl
    · exact fun h => hnil (σ.text_eq_nil_iff.mp h)
    · intro word h
      obtain ⟨u, ht, hu⟩ := σ.of_text_eq_cons (by decide) h
      obtain ⟨v, hv, -⟩ := σ.of_text_eq_cons (by decide) hu
      exact hcolonDash v (by rw [ht, hv])
    · intro word h
      obtain ⟨u, ht, hu⟩ := σ.of_text_eq_cons (by decide) h
      obtain ⟨v, hv, -⟩ := σ.of_text_eq_cons (by decide) hu
      exact hcolonPlus v (by rw [ht, hv])
    · intro word h
      obtain ⟨u, ht, -⟩ := σ.of_text_eq_cons (by decide) h
      exact hdash u ht
    · intro word h
      obtain ⟨u, ht, -⟩ := σ.of_text_eq_cons (by decide) h
      exact hplus u ht

theorem readInner_text (t : Text) :
    Reference.readInner (σ.text t) = (Reference.readInner t).map σ.reference := by
  cases t with
  | nil => rfl
  | cons c t =>
    rw [text_cons, Reference.readInner, Reference.readInner, σ.isNameStart_char,
      σ.takeWhile_isNameChar, σ.dropWhile_isNameChar, σ.readModifier_text]
    split
    · rename_i hstart
      rw [σ.keeps c (isSyntax_of_isNameStart hstart), Option.map_map, Option.map_map]
      rfl
    · rfl

theorem read?_text (t : Text) :
    Reference.read? (σ.text t) =
      (Reference.read? t).map fun p => (σ.reference p.1, σ.text p.2) := by
  cases t with
  | nil => rfl
  | cons c t =>
    simp (disch := decide) only [text_cons, Reference.read?, σ.char_eq_iff, σ.isNameStart_char,
      σ.upToBrace_text, σ.takeWhile_isNameChar, σ.dropWhile_isNameChar]
    split
    · cases Reference.upToBrace 0 t with
      | none => rfl
      | some p =>
        obtain ⟨inner, rest⟩ := p
        change (Reference.readInner (σ.text inner) >>= fun r => some (r, σ.text rest)) = _
        rw [σ.readInner_text]
        cases hinner : Reference.readInner inner <;> simp [hinner]
    · split
      · rename_i hstart
        rw [σ.keeps c (isSyntax_of_isNameStart hstart)]
        rfl
      · rfl

/-! ## Expansions -/

/-- A variable with its value renamed. -/
def binding (b : Binding) : Binding := { b with value := b.value.map σ.text }

/-- An expansion with its text renamed. -/
def expansion (e : Expansion) : Expansion := { e with value := σ.text e.value }

theorem expansion_append (a b : Expansion) :
    σ.expansion (a.append b) = (σ.expansion a).append (σ.expansion b) := by
  rw [expansion, Expansion.append, σ.text_append]
  rfl

theorem expansion_literal (t : Text) :
    σ.expansion (Expansion.literal t) = Expansion.literal (σ.text t) := rfl

theorem plain_binding (name : Text) (b : Option Binding) :
    Expansion.plain name (b.map σ.binding) = σ.expansion (Expansion.plain name b) := by
  cases b with
  | none => rfl
  | some b =>
    cases hv : b.value <;> simp [Expansion.plain, expansion, binding, hv]

theorem value_binding (b : Option Binding) :
    (b.map σ.binding).bind Binding.value = (b.bind Binding.value).map σ.text := by
  cases b <;> rfl

theorem wantsWord_text (condition : Condition) (v : Option Text) :
    condition.wantsWord (v.map σ.text) = condition.wantsWord v := by
  cases condition <;> cases v <;> simp [Condition.wantsWord, text]

theorem otherwise_text (condition : Condition) (v : Option Text) :
    condition.otherwise (v.map σ.text) = σ.text (condition.otherwise v) := by
  cases condition <;> cases v <;> rfl

theorem kept_char (mode : ExpandMode) (escape c : Char) :
    mode.kept (σ.char escape) (σ.char c) = σ.text (mode.kept escape c) := by
  simp (disch := decide) only [ExpandMode.kept, σ.char_eq_iff]
  split <;> rfl

theorem quoteAfter_char (mode : ExpandMode) (quote : Option Quote) (c : Char) :
    mode.quoteAfter quote (σ.char c) = mode.quoteAfter quote c := by
  simp only [ExpandMode.quoteAfter, σ.ofChar?_char]

/-- **Filling in renamed text with renamed values gives the renamed text.** -/
theorem ofText_text (escape : Char) (mode : ExpandMode) (lookup : Text → Option Binding)
    (quote : Option Quote) (t : Text) :
    Expansion.ofText (σ.char escape) mode (fun name => (lookup name).map σ.binding) quote
      (σ.text t) =
      σ.expansion (Expansion.ofText escape mode lookup quote t) := by
  have hdollar : σ.char '$' = '$' := σ.keeps '$' (by decide)
  have hescape : escape ≠ '$' → σ.char escape ≠ '$' := mt (σ.char_eq_iff (by decide)).mp
  -- an escape character may be a dollar sign, but then it is kept, and protects before it refers
  fun_induction Expansion.ofText escape mode lookup quote t with
  | case1 => rw [text_nil, Expansion.ofText]; rfl
  | case2 quote c => rw [text_cons, text_nil, Expansion.ofText]; rfl
  | case3 c d t ih =>
    rw [text_cons, Expansion.ofText_cons_single, σ.quoteAfter_char, ih, σ.expansion_append]
    rfl
  | case4 quote d t hq ih =>
    rw [text_cons, text_cons, Expansion.ofText_protected hq, σ.kept_char, ih, σ.expansion_append]
    rfl
  | case5 quote d t hq hr he ih =>
    have hread : Reference.read? (σ.text (d :: t)) = none := by rw [σ.read?_text, hr]; rfl
    rw [text_cons, hdollar, Expansion.ofText_dollar (hescape (Ne.symm he)) hq hread, ih,
      σ.expansion_append, σ.expansion_literal, text_cons, hdollar, text_nil]
  | case6 quote d t hq name rest hr he ih =>
    have hread : Reference.read? (σ.text (d :: t)) = some (⟨name, none⟩, σ.text rest) := by
      rw [σ.read?_text, hr]
      rfl
    rw [text_cons, hdollar, Expansion.ofText_reference (hescape (Ne.symm he)) hq hread, ih,
      σ.expansion_append, σ.plain_binding]
  | case7 quote d t hq name condition word rest hr v chosen he ihw ih =>
    have hread : Reference.read? (σ.text (d :: t)) =
        some (⟨name, some (condition, σ.text word)⟩, σ.text rest) := by
      rw [σ.read?_text, hr]
      rfl
    have hchosen : σ.expansion chosen =
        if condition.wantsWord v then σ.expansion (Expansion.ofText escape mode lookup none word)
        else .literal (σ.text (condition.otherwise v)) := apply_ite σ.expansion _ _ _
    rw [text_cons, hdollar, Expansion.ofText_modified (hescape (Ne.symm he)) hq hread, ih, ihw,
      σ.expansion_append, σ.value_binding, σ.wantsWord_text, σ.otherwise_text, hchosen]
  | case8 quote c d t hq he hc ih =>
    rw [text_cons,
      Expansion.ofText_cons (mt σ.char_inj.mp he) (mt (σ.char_eq_iff (by decide)).mp hc),
      σ.quoteAfter_char, ih, σ.expansion_append]
    rfl

/-! ## Scopes -/

/-- A scope with its escape character and the values of its variables renamed. -/
def scope (s : Scope) : Scope :=
  ⟨σ.char s.escape, s.global.map σ.binding, s.stages.map (List.map σ.binding)⟩

theorem get?_layer (l : Layer) (name : Text) :
    Layer.get? (l.map σ.binding) name = (l.get? name).map σ.binding := by
  rw [Layer.get?, List.find?_map]
  rfl

theorem lookup_scope (s : Scope) (name : Text) :
    (σ.scope s).lookup name = (s.lookup name).map σ.binding := by
  have hcurrent : (σ.scope s).stages.current?.getD [] =
      (s.stages.current?.getD []).map σ.binding := by
    rw [scope, Draft.current?_map]
    cases s.stages.current? <;> rfl
  rw [Scope.lookup, Scope.lookup, hcurrent, σ.get?_layer, scope, σ.get?_layer, Option.map_or]

theorem expand_scope (s : Scope) (mode : ExpandMode) (t : Text) :
    (σ.scope s).expand mode (σ.text t) = σ.expansion (s.expand mode t) := by
  rw [Scope.expand, funext (σ.lookup_scope s)]
  exact σ.ofText_text s.escape mode s.lookup none t

theorem expandGlobal_scope (s : Scope) (t : Text) :
    (σ.scope s).expandGlobal (σ.text t) = σ.expansion (s.expandGlobal t) := by
  have hlookup : (σ.scope s).global.get? = fun name => (s.global.get? name).map σ.binding :=
    funext (σ.get?_layer s.global)
  rw [Scope.expandGlobal, hlookup]
  exact σ.ofText_text s.escape .word s.global.get? none t

/-! ## The two escape characters -/

/-- **No scanner knows the escape character but from what it is told.**  With a backtick as the
escape character, and with backslash and backtick exchanged in a text, everything that looks for
heredocs, continued lines, words, quotes and marks in it finds the same at the same places as with a
backslash, and gives the same texts with the two exchanged.  Where they are exchanged in a scope, so
are they in what is filled in. -/
theorem exchange_commutes (t : Text) :
    HeredocMarker.all '\x60' (exchange.text t) = HeredocMarker.all '\\' t ∧
      stripContinuation? '\x60' (exchange.text t) = (stripContinuation? '\\' t).map exchange.text ∧
      Word.split '\x60' (exchange.text t) = (Word.split '\\' t).map exchange.text ∧
      (∀ mark, Word.cut? '\x60' (exchange.char mark) (exchange.text t) =
          (Word.cut? '\\' mark t).map (Prod.map exchange.text exchange.text) ∧
        (Word.cut? '\x60' (exchange.char mark) (exchange.text t)).map (fun p => p.1.byteSize) =
          (Word.cut? '\\' mark t).map (fun p => p.1.byteSize)) ∧
      Word.unquote '\x60' (exchange.text t) =
        (exchange.text (Word.unquote '\\' t).1, (Word.unquote '\\' t).2) ∧
      ∀ s : Scope, (exchange.scope s).escape = exchange.char s.escape ∧
        (∀ mode, (exchange.scope s).expand mode (exchange.text t) =
          exchange.expansion (s.expand mode t)) ∧
        (exchange.scope s).expandGlobal (exchange.text t) =
          exchange.expansion (s.expandGlobal t) := by
  have hcut : ∀ mark, Word.cut? '\x60' (exchange.char mark) (exchange.text t) =
      (Word.cut? '\\' mark t).map (Prod.map exchange.text exchange.text) :=
    fun mark => exchange.cut?_text '\\' mark t
  refine ⟨exchange.all_text '\\' t, exchange.stripContinuation?_text '\\' t,
    exchange.split_text '\\' t, fun mark => ⟨hcut mark, ?_⟩, exchange.unquote_text '\\' t, fun s =>
      ⟨rfl, fun mode => exchange.expand_scope s mode t, exchange.expandGlobal_scope s t⟩⟩
  rw [hcut, Option.map_map]
  exact congrArg (Option.map · _) (funext fun p => byteSize_exchange p.1)

end Containerfile.Renaming
