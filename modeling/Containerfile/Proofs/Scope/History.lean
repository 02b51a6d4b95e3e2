import Containerfile.Proofs.Scope
import Mathlib.Data.List.Induction

/-! # Histories of scopes

What can be seen in a scope is settled by what happened to it: names were declared and
stages were opened.  A history lists these events in their order, and `Scope.after` lets
them happen to a fresh scope.

A layer is what its bindings come to when they are made one after the other (`Layer.bindAll`): it
keeps the last binding of each name, in the order in which the names first came up.  The layer of a
stage starts with what the stage takes over from the layer before it as that stood when the stage
was opened (`Scope.after_opened`), and from then on no event changes an earlier layer
(`Scope.layers_of_opened`).  So what is found under a name can be read off the history
(`Scope.lookup_after_declared`, `Scope.lookup_after_opened`).

Main statement: `Scope.lookup_after`. -/
namespace Containerfile

/-- What gives a name a value, with the index of the instruction that does. -/
inductive Declaration where
  | arg (name : Text) (default : Option Text) (index : Nat)
  | env (name value : Text) (index : Nat)
  deriving DecidableEq, Repr

namespace Declaration

/-- The name that is declared. -/
def name : Declaration → Text
  | arg name .. | env name .. => name

/-- The binding that a declaration makes in an extent.  An ARG without default gets what
`fallback` has for its name. -/
def binding (x : Extent) (fallback : Text → Option Text) : Declaration → Binding
  | arg name default index => ⟨name, default.or (fallback name), .arg, index, x⟩
  | env name value index => ⟨name, some value, .env, index, x⟩

theorem name_binding (x : Extent) (fallback : Text → Option Text) (d : Declaration) :
    (d.binding x fallback).name = d.name := by cases d <;> rfl

end Declaration

/-- What can happen to a scope. -/
inductive Event where
  | declare (d : Declaration)
  /-- The next stage is opened. -/
  | stage
  deriving DecidableEq, Repr

/-! ## Layers -/

namespace Layer

/-- The last of some bindings that are of a name. -/
def last? (bs : List Binding) (name : Text) : Option Binding :=
  bs.findRev? fun b => b.name == name

/-- Makes bindings one after the other. -/
def bindAll (l : Layer) (bs : List Binding) : Layer := bs.foldl (fun l b => l.bind b) l

variable {l : Layer} {b : Binding} {bs : List Binding} {name : Text}

theorem bindAll_append (l : Layer) (bs cs : List Binding) :
    l.bindAll (bs ++ cs) = (l.bindAll bs).bindAll cs := List.foldl_append

theorem last?_cons (b : Binding) (bs : List Binding) (name : Text) :
    last? (b :: bs) name = (last? bs name).or (if b.name = name then some b else none) := by
  rw [last?, List.findRev?, last?]
  cases bs.findRev? fun b => b.name == name with
  | some c => rfl
  | none => simp

theorem mem_of_last? (h : last? bs name = some b) : b ∈ bs ∧ b.name = name := by
  induction bs with
  | nil => cases h
  | cons c bs ih =>
    rw [last?_cons, Option.or_eq_some_iff] at h
    rcases h with h | ⟨-, h⟩
    · exact ⟨List.mem_cons_of_mem _ (ih h).1, (ih h).2⟩
    · split at h
      · rename_i hname
        cases h
        exact ⟨List.mem_cons_self, hname⟩
      · cases h

/-- **After some bindings the last one of a name is found**, or else what was found before them. -/
theorem get?_bindAll (l : Layer) (bs : List Binding) (name : Text) :
    get? (l.bindAll bs) name = (last? bs name).or (get? l name) := by
  induction bs generalizing l with
  | nil => rfl
  | cons b bs ih =>
    have hstep : get? (l.bind b) name =
        (if b.name = name then some b else none).or (get? l name) := by
      by_cases hname : b.name = name
      · rw [if_pos hname, ← hname, get?_bind_self, Option.some_or]
      · rw [if_neg hname, get?_bind_of_ne hname, Option.none_or]
    rw [last?_cons, Option.or_assoc, ← hstep]
    exact ih (l.bind b)

theorem nodup_bindAll (h : (l.map Binding.name).Nodup) (bs : List Binding) :
    ((l.bindAll bs).map Binding.name).Nodup := by
  induction bs generalizing l with
  | nil => exact h
  | cons b bs ih => exact ih (nodup_bind h b)

theorem eraseDups_append_singleton (ns : List Text) (n : Text) :
    (ns ++ [n]).eraseDups = if n ∈ ns then ns.eraseDups else ns.eraseDups ++ [n] := by
  rw [List.eraseDups_append]
  by_cases h : n ∈ ns
  · simp [List.removeAll, h]
  · simp [List.removeAll, h, List.eraseDups_cons]

theorem nodup_eraseDups (ns : List Text) : ns.eraseDups.Nodup := by
  induction ns using List.reverseRecOn with
  | nil => exact List.nodup_nil
  | append_singleton ns n ih =>
    rw [eraseDups_append_singleton]
    split
    · exact ih
    · rename_i hn
      refine List.nodup_append.mpr ⟨ih, List.pairwise_singleton _ n, fun m hm k hk hmk => hn ?_⟩
      rw [← List.mem_singleton.mp hk, ← hmk]
      exact List.mem_eraseDups.mp hm

theorem eraseDups_eq_self {ns : List Text} (h : ns.Nodup) : ns.eraseDups = ns := by
  induction ns using List.reverseRecOn with
  | nil => rfl
  | append_singleton ns n ih =>
    rw [List.nodup_append] at h
    have hnot : n ∉ ns := fun hn => h.2.2 n hn n (List.mem_singleton_self n) rfl
    rw [eraseDups_append_singleton, if_neg hnot, ih h.1]

/-- **Names stand in the order in which they first came up.** -/
theorem map_name_bindAll (h : (l.map Binding.name).Nodup) (bs : List Binding) :
    (l.bindAll bs).map Binding.name = (l.map Binding.name ++ bs.map Binding.name).eraseDups := by
  induction bs using List.reverseRecOn with
  | nil =>
    rw [List.map_nil, List.append_nil, eraseDups_eq_self h]
    rfl
  | append_singleton bs b ih =>
    have hmem : b.name ∈ (l.bindAll bs).map Binding.name ↔
        b.name ∈ l.map Binding.name ++ bs.map Binding.name := by
      rw [ih, List.mem_eraseDups]
    rw [bindAll_append, List.map_append, ← List.append_assoc, List.map_singleton,
      eraseDups_append_singleton, ← ih]
    show ((l.bindAll bs).bind b).map Binding.name = _
    rw [map_name_bind]
    simp only [hmem]

/-- What a stage takes over of a name: its binding, if that is by an ENV. -/
def carried (index : Nat) (l : Layer) (name : Text) : Option Binding :=
  ((l.get? name).filter fun b => b.origin == .env).map fun b => { b with extent := .stage index }

theorem get?_cons (b : Binding) (l : Layer) (name : Text) :
    get? (b :: l) name = if b.name = name then some b else get? l name := by
  rw [get?, List.find?_cons]
  by_cases h : b.name = name
  · rw [if_pos h, beq_iff_eq.mpr h]
  · rw [if_neg h, beq_eq_false_iff_ne.mpr h]
    rfl

/-- **Of a name that is bound once, a stage takes over the binding by an ENV and no other.** -/
theorem get?_inherited (h : (l.map Binding.name).Nodup) (index : Nat) (name : Text) :
    get? (Scope.inherited index l) name = l.carried index name := by
  induction l with
  | nil => rfl
  | cons b l ih =>
    rw [List.map_cons, List.nodup_cons] at h
    have ih := ih h.2
    -- a name is not bound again behind its binding
    have hmiss : b.name = name → get? l name = none := by
      rintro rfl
      rw [get?, List.find?_eq_none]
      intro c hc hsame
      exact h.1 (List.mem_map.mpr ⟨c, hc, by simpa using hsame⟩)
    rw [carried] at ih ⊢
    rw [get?_cons]
    by_cases hname : b.name = name
    · rw [hmiss hname] at ih
      by_cases horigin : b.origin = .env
      · simp [Scope.inherited, get?_cons, Option.filter, horigin, hname]
      · simpa [Scope.inherited, Option.filter, horigin, hname] using ih
    · by_cases horigin : b.origin = .env
      · simpa [Scope.inherited, get?_cons, horigin, hname] using ih
      · simpa [Scope.inherited, horigin, hname] using ih

end Layer

namespace Scope

/-! ## Events -/

/-- A scope after one more event. -/
def follow (sc : Scope) : Event → Scope
  | .declare (.arg name default index) => sc.declareArg name default index
  | .declare (.env name value index) => sc.declareEnv name value index
  | .stage => sc.enterStage

/-- A fresh scope after a history. -/
def after (escape : Char) (h : List Event) : Scope := h.foldl follow { escape := escape }

variable {sc : Scope} {escape : Char} {h before more : List Event} {ds : List Declaration}
  {name : Text} {b : Binding}

theorem after_append (escape : Char) (h more : List Event) :
    after escape (h ++ more) = more.foldl follow (after escape h) := List.foldl_append

theorem after_snoc (escape : Char) (h : List Event) (e : Event) :
    after escape (h ++ [e]) = (after escape h).follow e := after_append escape h [e]

/-- Before the first stage declarations go to the global layer. -/
theorem foldl_declare_of_empty (hs : sc.stages = .empty) (ds : List Declaration) :
    (ds.map Event.declare).foldl follow sc =
      { sc with
        global := sc.global.bindAll (ds.map (Declaration.binding .global fun _ => none)) } := by
  induction ds generalizing sc with
  | nil => rfl
  | cons d ds ih =>
    obtain ⟨e, global, stages⟩ := sc
    cases hs
    have hstep : follow ⟨e, global, .empty⟩ (.declare d) =
        ⟨e, global.bind (d.binding .global fun _ => none), .empty⟩ := by
      rcases d with ⟨name, _ | default, index⟩ | ⟨name, value, index⟩
      · rfl
      · rfl
      · rfl
    rw [List.map_cons, List.foldl_cons, hstep]
    exact ih rfl

/-- The global value of a name, for ARGs without default. -/
def globalValue (sc : Scope) (name : Text) : Option Text := (sc.global.get? name).bind Binding.value

/-- In a stage they go to its layer. -/
theorem foldl_declare_of_writing {settled : List Layer} {current : Layer}
    (hs : sc.stages = .writing settled current) (ds : List Declaration) :
    (ds.map Event.declare).foldl follow sc =
      { sc with
        stages := .writing settled
          (current.bindAll
            (ds.map (Declaration.binding (.stage settled.length) sc.globalValue))) } := by
  induction ds generalizing sc current with
  | nil =>
    obtain ⟨e, global, stages⟩ := sc
    cases hs
    rfl
  | cons d ds ih =>
    obtain ⟨e, global, stages⟩ := sc
    cases hs
    have hstep : follow ⟨e, global, .writing settled current⟩ (.declare d) =
        ⟨e, global, .writing settled (current.bind (d.binding (.stage settled.length)
          (globalValue ⟨e, global, .writing settled current⟩)))⟩ := by
      rcases d with ⟨name, _ | default, index⟩ | ⟨name, value, index⟩
      · rfl
      · rfl
      · rfl
    rw [List.map_cons, List.foldl_cons, hstep]
    exact ih rfl

/-! ## Whole histories -/

/-- A history ends with the declarations of its last stage, or with those before the first one. -/
theorem declared_or_opened (h : List Event) :
    (∃ ds : List Declaration, h = ds.map .declare) ∨
      ∃ (before : List Event) (ds : List Declaration), h = before ++ .stage :: ds.map .declare := by
  induction h using List.reverseRecOn with
  | nil => exact Or.inl ⟨[], rfl⟩
  | append_singleton h e ih =>
    rcases e with d | _
    · rcases ih with ⟨ds, rfl⟩ | ⟨before, ds, rfl⟩
      · exact Or.inl ⟨ds ++ [d], by simp⟩
      · exact Or.inr ⟨before, ds ++ [d], by simp⟩
    · exact Or.inr ⟨h, [], rfl⟩

/-- The declarations before the first stage. -/
def globals : List Event → List Declaration
  | .declare d :: h => d :: globals h
  | _ => []

/-- The bindings before the first stage, as they were made. -/
def globalsMade (h : List Event) : List Binding :=
  (globals h).map (Declaration.binding .global fun _ => none)

/-- The bindings of a stage that was opened after a history, as they were made.  An ARG without
default has the value that its name was given before the first stage. -/
def stageMade (before : List Event) (ds : List Declaration) : List Binding :=
  ds.map (Declaration.binding (.stage (before.count .stage)) fun name =>
    (Layer.last? (globalsMade before) name).bind Binding.value)

theorem size_follow (sc : Scope) (e : Event) :
    (sc.follow e).stages.size = sc.stages.size + if e = .stage then 1 else 0 := by
  rcases e with ⟨⟨name, default, index⟩ | ⟨name, value, index⟩⟩ | _
  · exact size_bind sc _
  · exact size_bind sc _
  · exact Draft.size_begin _ _

/-- There are as many layers as stages were opened. -/
theorem size_after (escape : Char) (h : List Event) :
    (after escape h).stages.size = h.count .stage := by
  induction h using List.reverseRecOn with
  | nil => rfl
  | append_singleton h e ih =>
    rw [after_snoc, size_follow, ih, List.count_append, List.count_singleton]
    simp only [beq_iff_eq]

theorem stages_enterStage (sc : Scope) : sc.enterStage.stages =
    .writing sc.stages.toList (inherited sc.stages.size (sc.stages.current?.getD [])) := rfl

/-- What is declared in a stage does not show before the first one. -/
theorem global_foldl_of_writing {settled : List Layer} {current : Layer}
    (hs : sc.stages = .writing settled current) (h : List Event) :
    (h.foldl follow sc).global = sc.global := by
  induction h generalizing sc settled current with
  | nil => rfl
  | cons e h ih =>
    rcases e with d | _
    · have hstep := foldl_declare_of_writing hs [d]
      rw [List.map_singleton, List.foldl_cons, List.foldl_nil] at hstep
      rw [List.foldl_cons, hstep]
      exact ih rfl
    · exact ih sc.stages_enterStage

theorem global_foldl_of_empty (hs : sc.stages = .empty) (h : List Event) :
    (h.foldl follow sc).global = sc.global.bindAll (globalsMade h) := by
  induction h generalizing sc with
  | nil => rfl
  | cons e h ih =>
    rcases e with d | _
    · have hstep := foldl_declare_of_empty hs [d]
      rw [List.map_singleton, List.foldl_cons, List.foldl_nil] at hstep
      rw [List.foldl_cons, hstep]
      exact ih hs
    · exact global_foldl_of_writing sc.stages_enterStage h

/-- **The global layer is made of the declarations before the first stage.** -/
theorem global_after (escape : Char) (h : List Event) :
    (after escape h).global = Layer.bindAll [] (globalsMade h) := global_foldl_of_empty rfl h

theorem get?_global_after (escape : Char) (h : List Event) (name : Text) :
    (after escape h).global.get? name = Layer.last? (globalsMade h) name := by
  rw [global_after, Layer.get?_bindAll]
  exact Option.or_none

theorem globals_declared (ds : List Declaration) : globals (ds.map .declare) = ds := by
  induction ds with
  | nil => rfl
  | cons d ds ih => exact congrArg (d :: ·) ih

theorem after_declared (escape : Char) (ds : List Declaration) :
    after escape (ds.map .declare) =
      { escape := escape, global := Layer.bindAll [] (globalsMade (ds.map .declare)) } := by
  rw [globalsMade, globals_declared]
  exact foldl_declare_of_empty rfl ds

/-- The layer that a stage starts from. -/
def latest (sc : Scope) : Layer := sc.stages.current?.getD []

/-- **The layer of a stage is what it takes over and what is declared in it.** -/
theorem after_opened (escape : Char) (before : List Event) (ds : List Declaration) :
    after escape (before ++ .stage :: ds.map .declare) =
      { after escape before with
        stages := (after escape before).stages.begin
          ((inherited (before.count .stage) (after escape before).latest).bindAll
            (stageMade before ds)) } := by
  have hsize : (after escape before).stages.toList.length = before.count .stage :=
    size_after escape before
  rw [after_append, List.foldl_cons]
  have hfold := foldl_declare_of_writing (after escape before).stages_enterStage ds
  rw [hsize] at hfold
  refine hfold.trans ?_
  have hvalue : globalValue (after escape before).enterStage =
      fun name => (Layer.last? (globalsMade before) name).bind Binding.value := by
    funext name
    rw [← get?_global_after escape]
    rfl
  rw [hvalue, stageMade, ← hsize]
  rfl

/-- Events leave the layers before the current one alone. -/
theorem dropLast_follow (sc : Scope) (e : Event) (hs : sc.stages.size ≠ 0) :
    sc.stages.toList.dropLast <+: (sc.follow e).stages.toList.dropLast := by
  obtain ⟨escape, global, _ | ⟨settled, current⟩⟩ := sc
  · exact absurd rfl hs
  · rcases e with ⟨⟨name, default, index⟩ | ⟨name, value, index⟩⟩ | _
    · simp [follow, declareArg, bind, Draft.modify, Draft.toList]
    · simp [follow, declareEnv, bind, Draft.modify, Draft.toList]
    · simp [follow, enterStage, Draft.begin, Draft.toList]

/-- **Layers stay as they were when a later stage was opened.** -/
theorem layers_of_opened (escape : Char) (before more : List Event) :
    (after escape before).stages.toList <+:
      (after escape (before ++ .stage :: more)).stages.toList.dropLast := by
  induction more using List.reverseRecOn with
  | nil =>
    have hopened : (after escape (before ++ [.stage])).stages.toList.dropLast =
        (after escape before).stages.toList := by
      rw [after_snoc, follow, enterStage, Draft.toList_begin, List.dropLast_concat]
    exact ⟨[], (List.append_nil _).trans hopened.symm⟩
  | append_singleton more e ih =>
    rw [← List.cons_append, ← List.append_assoc, after_snoc]
    refine ih.trans (dropLast_follow _ e ?_)
    rw [size_after, List.count_append, List.count_cons_self]
    omega

theorem nodup_follow (sc : Scope) (e : Event)
    (h : ∀ l ∈ sc.stages.toList, (l.map Binding.name).Nodup) :
    ∀ l ∈ (sc.follow e).stages.toList, (l.map Binding.name).Nodup := by
  have hbind : ∀ b, ∀ l ∈ (sc.bind b).stages.toList, (l.map Binding.name).Nodup := by
    intro b l hl
    rw [bind] at hl
    split at hl
    · exact h l hl
    · obtain ⟨m, hm, rfl | rfl⟩ := Draft.mem_modify hl
      · exact h l hm
      · exact Layer.nodup_bind (h m hm) b
  rcases e with ⟨⟨name, default, index⟩ | ⟨name, value, index⟩⟩ | _
  · exact hbind _
  · exact hbind _
  · intro l hl
    rw [follow, enterStage, Draft.toList_begin] at hl
    rcases List.mem_append.mp hl with hl | hl
    · exact h l hl
    · obtain rfl := List.mem_singleton.mp hl
      refine Layer.nodup_inherited ?_ _
      rw [Draft.current?_eq_getLast?]
      rcases hlast : sc.stages.toList.getLast? with _ | m
      · exact List.nodup_nil
      · exact h m (List.mem_of_getLast? hlast)

/-- **No layer of a stage binds a name twice.** -/
theorem nodup_after (escape : Char) (h : List Event) :
    ∀ l ∈ (after escape h).stages.toList, (l.map Binding.name).Nodup := by
  induction h using List.reverseRecOn with
  | nil => simp [after]
  | append_singleton h e ih =>
    rw [after_snoc]
    exact nodup_follow _ e ih

theorem nodup_latest (escape : Char) (h : List Event) :
    ((after escape h).latest.map Binding.name).Nodup := by
  rw [latest, Draft.current?_eq_getLast?]
  rcases hlast : (after escape h).stages.toList.getLast? with _ | l
  · exact List.nodup_nil
  · exact nodup_after escape h l (List.mem_of_getLast? hlast)

/-- Nor does the layer before the first stage. -/
theorem nodup_global_after (escape : Char) (h : List Event) :
    ((after escape h).global.map Binding.name).Nodup := by
  rw [global_after]
  exact Layer.nodup_bindAll (l := []) List.nodup_nil _

/-! ## The order of names -/

theorem map_name_globalsMade (ds : List Declaration) :
    (globalsMade (ds.map .declare)).map Binding.name = ds.map Declaration.name := by
  rw [globalsMade, globals_declared, List.map_map]
  exact List.map_congr_left fun d _ => d.name_binding _ _

theorem map_name_stageMade (before : List Event) (ds : List Declaration) :
    (stageMade before ds).map Binding.name = ds.map Declaration.name := by
  rw [stageMade, List.map_map]
  exact List.map_congr_left fun d _ => d.name_binding _ _

theorem map_name_inherited (index : Nat) (l : Layer) :
    (inherited index l).map Binding.name =
      (l.filter (·.origin = .env)).map Binding.name := by
  rw [inherited, List.map_map]
  rfl

theorem map_name_after_declared (escape : Char) (ds : List Declaration) :
    (after escape (ds.map .declare)).current.map Binding.name =
      (ds.map Declaration.name).eraseDups := by
  rw [after_declared]
  show (Layer.bindAll [] _).map Binding.name = _
  rw [Layer.map_name_bindAll (l := []) List.nodup_nil, map_name_globalsMade]
  rfl

theorem map_name_after_opened (escape : Char) (before : List Event) (ds : List Declaration) :
    (after escape (before ++ .stage :: ds.map .declare)).current.map Binding.name =
      (((after escape before).latest.filter (·.origin = .env)).map Binding.name ++
        ds.map Declaration.name).eraseDups := by
  rw [after_opened, current, Draft.current?_begin, Option.getD_some,
    Layer.map_name_bindAll (Layer.nodup_inherited (nodup_latest escape before) _),
    map_name_inherited, map_name_stageMade]

/-! ## What can be seen -/

/-- Before the first stage the last declaration of a name is seen. -/
theorem lookup_after_declared (escape : Char) (ds : List Declaration) (name : Text) :
    (after escape (ds.map .declare)).lookup name =
      Layer.last? (globalsMade (ds.map .declare)) name := by
  rw [lookup, get?_global_after, after_declared]
  exact Option.none_or

/-- **In a stage the last declaration of a name in it is seen**, or else what was taken over, or
else the last declaration before the first stage. -/
theorem lookup_after_opened (escape : Char) (before : List Event) (ds : List Declaration)
    (name : Text) :
    (after escape (before ++ .stage :: ds.map .declare)).lookup name =
      ((Layer.last? (stageMade before ds) name).or
        ((after escape before).latest.carried (before.count .stage) name)).or
          (Layer.last? (globalsMade before) name) := by
  rw [after_opened, lookup, Draft.current?_begin, Option.getD_some, Layer.get?_bindAll,
    Layer.get?_inherited (nodup_latest escape before), get?_global_after]

/-- A binding by an ARG that is seen in a stage was made there or before the first stage. -/
theorem origin_of_lookup_eq_arg
    (h : (after escape (before ++ .stage :: ds.map .declare)).lookup name = some b)
    (harg : b.origin = .arg) : b ∈ stageMade before ds ∨ b ∈ globalsMade before := by
  rw [lookup_after_opened, Option.or_eq_some_iff, Option.or_eq_some_iff] at h
  rcases h with (h | ⟨-, h⟩) | ⟨-, h⟩
  · exact Or.inl (Layer.mem_of_last? h).1
  · -- what is taken over is by an ENV
    obtain ⟨c, hc, rfl⟩ := Option.map_eq_some_iff.mp h
    have horigin := (Option.filter_eq_some_iff.mp hc).2
    rw [beq_iff_eq] at horigin
    rw [show c.origin = .arg from harg] at horigin
    cases horigin
  · exact Or.inr (Layer.mem_of_last? h).1

/-- A declaration in a stage makes a binding in its layer. -/
theorem latest_declare (hs : sc.stages.size ≠ 0) (d : Declaration) :
    (sc.follow (.declare d)).latest =
      sc.latest.bind (d.binding (.stage (sc.stages.size - 1)) sc.globalValue) := by
  rcases hstages : sc.stages with _ | ⟨settled, current⟩
  · rw [hstages] at hs
    exact absurd rfl hs
  · have hsize : (Draft.writing settled current).size - 1 = settled.length := by
      simp [Draft.size, Draft.toList]
    have hstep := foldl_declare_of_writing hstages [d]
    rw [List.map_singleton, List.foldl_cons, List.foldl_nil] at hstep
    rw [hstep, hsize, latest, latest, hstages]
    rfl

/-- **What an ENV binds stays bound while other names are declared**, in its stage and in later
ones. -/
theorem get?_latest_of_env (escape : Char) (value : Text) (index : Nat)
    (hs : 0 < before.count .stage) (hmore : ∀ d, .declare d ∈ more → d.name ≠ name) :
    (after escape (before ++ .declare (.env name value index) :: more)).latest.get? name =
      some ⟨name, some value, .env, index, .stage ((before ++ more).count .stage - 1)⟩ := by
  have hsize : ∀ h, (after escape (before ++ h)).stages.size = (before ++ h).count .stage :=
    fun h => size_after escape _
  induction more using List.reverseRecOn with
  | nil =>
    have hbefore := hsize []
    rw [List.append_nil] at hbefore
    rw [after_snoc, latest_declare (by omega), hbefore, List.append_nil]
    exact Layer.get?_bind_self _ _
  | append_singleton more e ih =>
    have ih := ih fun d hd => hmore d (List.mem_append_left _ hd)
    have hlast := hsize (.declare (.env name value index) :: more)
    have hcount : (before ++ .declare (.env name value index) :: more).count .stage =
        (before ++ more).count .stage := by
      simp [List.count_append]
    have hpos : 0 < (before ++ more).count .stage := by
      rw [List.count_append]
      omega
    rw [← List.cons_append, ← List.append_assoc, after_snoc]
    rcases e with d | _
    · have hname : d.name ≠ name := hmore d (List.mem_append_right _ (List.mem_singleton_self _))
      have hopened : (before ++ (more ++ [Event.declare d])).count .stage =
          (before ++ more).count .stage := by
        simp [List.count_append]
      rw [latest_declare (by omega), Layer.get?_bind_of_ne (by rwa [d.name_binding]), ih, hopened]
    · -- the stage that is opened takes the binding over
      have hopened : (before ++ (more ++ [Event.stage])).count .stage - 1 =
          (before ++ more).count .stage := by
        simp [List.count_append]
      show Layer.get? (inherited _ (after escape _).latest) name = _
      rw [Layer.get?_inherited (nodup_latest escape _), Layer.carried, ih, hlast, hcount, hopened]
      rfl

theorem lookup_of_env (escape : Char) (value : Text) (index : Nat)
    (hs : 0 < before.count .stage) (hmore : ∀ d, .declare d ∈ more → d.name ≠ name) :
    (after escape (before ++ .declare (.env name value index) :: more)).lookup name =
      some ⟨name, some value, .env, index, .stage ((before ++ more).count .stage - 1)⟩ := by
  have hlatest := get?_latest_of_env escape value index hs hmore
  rw [latest] at hlatest
  rw [lookup, hlatest, Option.some_or]

/-- **What can be seen in a scope can be read off its history.**

1. A history is a row of declarations, or it has a last stage with only declarations behind it.
2. Every layer binds a name once.
3. Names stand in the order in which they came up: those that the stage took over by an ENV,
   then those declared in it.
4. When a stage is opened, the layers that there are stay as they are for good.
5. Before the first stage, the last declaration of a name is seen.
6. In a stage its last declaration there is seen; or else, if the stage before had it bound
   by an ENV when it was left, that binding, now in this stage; or else its last
   declaration before the first stage.
7. So an ARG that is seen in a stage was declared there or before the first stage.
8. And an ENV of a stage is seen there and in all later stages until its name is declared again. -/
theorem lookup_after (escape : Char) :
    (∀ h : List Event, (∃ ds : List Declaration, h = ds.map .declare) ∨
        ∃ (before : List Event) (ds : List Declaration), h = before ++ .stage :: ds.map .declare) ∧
      (∀ h, ∀ l ∈ (after escape h).global :: (after escape h).stages.toList,
        (l.map Binding.name).Nodup) ∧
      (∀ ds : List Declaration, (after escape (ds.map .declare)).current.map Binding.name =
          (ds.map Declaration.name).eraseDups) ∧
      (∀ (before : List Event) (ds : List Declaration),
        (after escape (before ++ .stage :: ds.map .declare)).current.map Binding.name =
          (((after escape before).latest.filter (·.origin = .env)).map Binding.name ++
            ds.map Declaration.name).eraseDups) ∧
      (∀ before more,
        (after escape (before ++ .stage :: more)).global = (after escape before).global ∧
          (after escape before).stages.toList <+:
            (after escape (before ++ .stage :: more)).stages.toList.dropLast) ∧
      (∀ (ds : List Declaration) (name : Text), (after escape (ds.map .declare)).lookup name =
          Layer.last? (globalsMade (ds.map .declare)) name) ∧
      (∀ (before : List Event) (ds : List Declaration) (name : Text),
        (after escape (before ++ .stage :: ds.map .declare)).lookup name =
          ((Layer.last? (stageMade before ds) name).or
            ((after escape before).latest.carried (before.count .stage) name)).or
              (Layer.last? (globalsMade before) name)) ∧
      (∀ before ds name b,
        (after escape (before ++ .stage :: ds.map .declare)).lookup name = some b →
          b.origin = .arg → b ∈ stageMade before ds ∨ b ∈ globalsMade before) ∧
      ∀ before more name value index, 0 < before.count .stage →
        (∀ d, .declare d ∈ more → d.name ≠ name) →
          (after escape (before ++ .declare (.env name value index) :: more)).lookup name =
            some ⟨name, some value, .env, index, .stage ((before ++ more).count .stage - 1)⟩ := by
  refine ⟨declared_or_opened, ?_, ?_, ?_, ?_, lookup_after_declared escape,
    lookup_after_opened escape, ?_, ?_⟩
  · intro h
    exact List.forall_mem_cons.mpr ⟨nodup_global_after escape h, nodup_after escape h⟩
  · exact map_name_after_declared escape
  · exact map_name_after_opened escape
  · intro before more
    refine ⟨?_, layers_of_opened escape before more⟩
    rw [after_append, List.foldl_cons]
    exact global_foldl_of_writing (after escape before).stages_enterStage more
  · intro before ds name b
    exact origin_of_lookup_eq_arg
  · intro before more name value index
    exact lookup_of_env escape value index

/-- An ENV that is taken over twice, past an ARG of another name; and an ARG without default behind
both. -/
theorem lookup_after_takenOver :
    let before : List Event := [.declare (.arg "V".toList (some "1".toList) 0), .stage]
    let more : List Event := [.stage, .declare (.arg "W".toList none 3), .stage]
    let ds : List Declaration := [.arg "V".toList none 5]
    let h := before ++ .declare (.env "E".toList "a".toList 2) :: more
    0 < before.count .stage ∧ (∀ d, .declare d ∈ more → d.name ≠ "E".toList) ∧
      (after '\\' h).lookup "E".toList =
        some ⟨"E".toList, some "a".toList, .env, 2, .stage 2⟩ ∧
      (after '\\' (h ++ .stage :: ds.map .declare)).lookup "V".toList =
        some ⟨"V".toList, some "1".toList, .arg, 5, .stage 3⟩ ∧
      (⟨"V".toList, some "1".toList, .arg, 5, .stage 3⟩ ∈ stageMade h ds ∨
        ⟨"V".toList, some "1".toList, .arg, 5, .stage 3⟩ ∈ globalsMade h) := by
  have hmore : ∀ d, Event.declare d ∈ [.stage, .declare (.arg "W".toList none 3), .stage] →
      d.name ≠ "E".toList := by
    intro d hd
    simp only [List.mem_cons, List.not_mem_nil, reduceCtorEq, Event.declare.injEq, false_or,
      or_false] at hd
    rw [hd]
    decide
  have hv : (after '\\' ([.declare (.arg "V".toList (some "1".toList) 0), .stage,
      .declare (.env "E".toList "a".toList 2), .stage, .declare (.arg "W".toList none 3), .stage] ++
        .stage :: [Declaration.arg "V".toList none 5].map .declare)).lookup "V".toList =
          some ⟨"V".toList, some "1".toList, .arg, 5, .stage 3⟩ := by
    decide
  obtain ⟨-, -, -, -, -, -, -, harg, henv⟩ := lookup_after '\\'
  exact ⟨by decide, hmore, henv _ _ _ _ 2 (by decide) hmore, hv, harg _ _ _ _ hv rfl⟩

end Scope

end Containerfile
