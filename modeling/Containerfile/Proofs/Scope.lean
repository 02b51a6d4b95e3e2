import Containerfile.Scope.Basic

/-! # Bindings where they belong

A layer belongs to an extent if all of its bindings can be seen there and no two have the same name.
In a well-formed scope the layers belong to where they stand, and before the first stage there are
only ARGs.  Making bindings and opening stages keep this; a binding in a stage leaves the layer
before the first stage alone. -/
namespace Containerfile

namespace Layer

/-- Whether a layer is one of bindings of an extent, each name once. -/
structure BelongsTo (x : Extent) (l : Layer) : Prop where
  extent : ∀ b ∈ l, b.extent = x
  names : (l.map Binding.name).Nodup

variable {x : Extent} {l : Layer} {b c : Binding}

/-- Making a binding makes no other one. -/
theorem eq_or_mem_of_mem_bind (h : c ∈ l.bind b) : c = b ∨ c ∈ l := by
  induction l with
  | nil => exact Or.inl (List.mem_singleton.mp h)
  | cons a l ih =>
    rw [bind] at h
    split at h
    · rcases List.mem_cons.mp h with h | h
      · exact Or.inl h
      · exact Or.inr (List.mem_cons_of_mem _ h)
    · rcases List.mem_cons.mp h with h | h
      · exact Or.inr (h ▸ List.mem_cons_self)
      · exact (ih h).imp_right (List.mem_cons_of_mem _)

/-- A name that is bound already keeps its place; a new one comes last. -/
theorem map_name_bind (b : Binding) (l : Layer) :
    (l.bind b).map Binding.name =
      if b.name ∈ l.map Binding.name then l.map Binding.name
      else l.map Binding.name ++ [b.name] := by
  induction l with
  | nil => simp [bind]
  | cons a l ih =>
    rw [bind]
    by_cases ha : a.name = b.name
    · simp [ha]
    · rw [if_neg ha, List.map_cons, ih]
      have ha' : b.name ≠ a.name := fun h => ha h.symm
      by_cases hl : b.name ∈ l.map Binding.name
      · rw [if_pos hl, List.map_cons, if_pos (List.mem_cons_of_mem _ hl)]
      · rw [if_neg hl, List.map_cons, if_neg (by simp [ha', hl]), List.cons_append]

/-- Making a binding binds no name twice. -/
theorem nodup_bind (h : (l.map Binding.name).Nodup) (b : Binding) :
    ((l.bind b).map Binding.name).Nodup := by
  rw [map_name_bind]
  by_cases hl : b.name ∈ l.map Binding.name
  · rw [if_pos hl]
    exact h
  · rw [if_neg hl]
    exact List.nodup_append.mpr ⟨h, by simp, by
      rintro m hm n hn rfl
      exact hl (List.mem_singleton.mp hn ▸ hm)⟩

/-- Neither does taking over bindings. -/
theorem nodup_inherited (h : (l.map Binding.name).Nodup) (index : Nat) :
    ((Scope.inherited index l).map Binding.name).Nodup := by
  rw [Scope.inherited, List.map_map]
  exact (List.filter_sublist.map _).nodup h

theorem belongsTo_nil (x : Extent) : BelongsTo x [] := ⟨by simp, List.nodup_nil⟩

theorem BelongsTo.bind (h : l.BelongsTo x) (hb : b.extent = x) : (l.bind b).BelongsTo x := by
  refine ⟨?_, nodup_bind h.names b⟩
  intro c hc
  rcases eq_or_mem_of_mem_bind hc with rfl | hc
  · exact hb
  · exact h.extent c hc

/-- What a stage takes over belongs to it. -/
theorem BelongsTo.inherited (h : l.BelongsTo x) (index : Nat) :
    BelongsTo (.stage index) (Scope.inherited index l) := by
  refine ⟨?_, nodup_inherited h.names index⟩
  intro b hb
  obtain ⟨c, -, rfl⟩ := List.mem_map.mp hb
  rfl

end Layer

namespace Scope

/-- Whether the bindings of a scope are where they belong. -/
structure WellFormed (sc : Scope) : Prop where
  global : sc.global.BelongsTo .global
  args : ∀ b ∈ sc.global, b.origin = .arg
  stages : ∀ (k : Nat) (l : Layer), sc.stages.toList[k]? = some l → l.BelongsTo (.stage k)

variable {sc : Scope}

theorem wellFormed_empty (escape : Char) : WellFormed { escape := escape } where
  global := Layer.belongsTo_nil _
  args := by simp
  stages := by simp

@[simp] theorem size_bind (sc : Scope) (b : Binding) :
    (sc.bind b).stages.size = sc.stages.size := by
  rw [bind]
  split
  · rfl
  · exact Draft.size_modify _ _

/-- Before the first stage only an ARG may make a binding. -/
theorem WellFormed.bind (h : sc.WellFormed) {b : Binding} (hb : b.extent = sc.extent)
    (ho : sc.stages.size = 0 → b.origin = .arg) : (sc.bind b).WellFormed := by
  rw [Scope.bind]
  split
  · rename_i hs
    have hextent : b.extent = .global := by rw [hb, extent, currentIndex, hs]
    refine ⟨h.global.bind hextent, ?_, h.stages⟩
    intro c hc
    rcases Layer.eq_or_mem_of_mem_bind hc with rfl | hc
    · exact ho (by rw [hs]; rfl)
    · exact h.args c hc
  · rename_i settled current hs
    have hextent : b.extent = .stage settled.length := by rw [hb, extent, currentIndex, hs]
    refine ⟨h.global, h.args, ?_⟩
    intro k l hl
    obtain ⟨m, hm, hlast⟩ := Draft.getElem?_modify hl
    rcases hlast with rfl | ⟨hk, rfl⟩
    · exact h.stages k l hm
    · refine (h.stages k m hm).bind ?_
      have hk : k = settled.length := by simpa [hs, Draft.size, Draft.toList] using hk
      rw [hextent, hk]

theorem WellFormed.declareArg (h : sc.WellFormed) (name : Text) (default : Option Text)
    (index : Nat) : (sc.declareArg name default index).WellFormed :=
  h.bind rfl fun _ => rfl

/-- An ENV variable is declared in a stage. -/
theorem WellFormed.declareEnv (h : sc.WellFormed) (hs : sc.stages.size ≠ 0) (name value : Text)
    (index : Nat) : (sc.declareEnv name value index).WellFormed :=
  h.bind rfl fun hempty => absurd hempty hs

theorem WellFormed.enterStage (h : sc.WellFormed) : sc.enterStage.WellFormed := by
  refine ⟨h.global, h.args, ?_⟩
  intro k l hl
  rcases Draft.getElem?_begin hl with hl | ⟨rfl, rfl⟩
  · exact h.stages k l hl
  · rw [Draft.current?_eq_getLast?, List.getLast?_eq_getElem?]
    rcases hlast : sc.stages.toList[sc.stages.toList.length - 1]? with _ | m
    · exact Layer.belongsTo_nil _
    · exact (h.stages _ m hlast).inherited _

/-- The bindings of a stage belong to it. -/
theorem WellFormed.bindingsOf (h : sc.WellFormed) (index : Nat) :
    (sc.bindingsOf index).BelongsTo (.stage index) := by
  rw [Scope.bindingsOf]
  rcases hl : sc.stages.toList[index]? with _ | l
  · exact Layer.belongsTo_nil _
  · exact h.stages index l hl

end Scope

end Containerfile
