import Containerfile.Proofs.Document.WellFormed

/-! # What stages are built on

The base of a stage is settled when the stage is opened, by the names of the stages before it and no
others.  `Assembly.Based` says so of the stages so far, and every line that is dealt with keeps it
(`Progress.Handled.based`).

A base that was taken for an image and could be a stage is looked at again in the end.  A strict
reading that yields a document finds nothing there, so no stage of the file has the name of such a
base (`Assembly.isCalled_of_lateFailures_eq_nil`).

Main statement: `Document.base_of_readLines`. -/
namespace Containerfile

namespace Assembly

variable {a b : Assembly} {opening : BaseImage} {lines : LineSpan} {e : Entry} {s t : Stage}
  {image : ImageName} {i k : Nat}

/-! ## Names before a stage -/

/-- A name that is not bare is that of an image. -/
theorem resolveBase_of_not_bare (h : image.isBare = false) :
    a.resolveBase image = .external image := by
  rw [resolveBase, if_neg (by rw [h]; exact Bool.false_ne_true)]

/-- **A bare name is that of the stage that has it.** -/
theorem resolveBase_of_called (hdistinct : a.aliases.Distinct) (hbare : image.isBare = true)
    (ht : a.heads[i]? = some t) (hcalled : Aliases.isCalled image.repository t.givenName = true) :
    a.resolveBase image = .stage i := by
  have hgiven : a.aliases[i]? = some t.givenName := by
    rw [aliases_eq, List.getElem?_map, ht, Option.map_some]
  have hposition := hdistinct.position_of_called hgiven hcalled
  rw [resolveBase, if_pos hbare, hposition]

/-- If no stage has it, it stands for nothing or for an image. -/
theorem resolveBase_of_not_called (hbare : image.isBare = true)
    (hnone : ∀ t ∈ a.heads, Aliases.isCalled image.repository t.givenName = false) :
    a.resolveBase image =
      if Text.sameName image.repository "scratch".toList then .scratch else .external image := by
  have hposition : a.aliases.position image.repository = none := by
    rw [aliases_eq, Aliases.position, List.findIdx?_eq_none_iff, List.forall_mem_map]
    exact hnone
  rw [resolveBase, if_pos hbare, hposition]

/-! ## What steps keep -/

/-- Whether every stage is built on what its name stands for among the stages before it. -/
def Based (a : Assembly) : Prop :=
  ∀ (k : Nat) (s : Stage), a.heads[k]? = some s →
    ∃ b : Assembly, b.heads = a.heads.take k ∧ s.base = b.resolveBase s.opening.image

theorem based_empty : Based {} := by
  intro k s hs
  cases hs

theorem Based.openStage (h : a.Based) (hb : a.openStage opening lines = .ok b) : b.Based := by
  intro k s hs
  rw [heads_of_openStage hb] at hs ⊢
  rcases Nat.lt_or_ge k a.heads.length with hk | hk
  · rw [List.getElem?_append_left hk] at hs
    rw [List.take_append_of_le_length (Nat.le_of_lt hk)]
    exact h k s hs
  · rw [List.getElem?_append_right hk, List.getElem?_singleton] at hs
    split at hs
    · rename_i hlast
      cases hs
      have hlength : k = a.heads.length := by omega
      exact ⟨a, by rw [hlength, List.take_left], rfl⟩
    · cases hs

theorem Based.push (h : a.Based) (hb : a.push e = .ok b) : b.Based := by
  rw [Based, heads_of_push hb]
  exact h

/-- **Where no failure shows at the end, a base that could be a stage is none.** -/
theorem isCalled_of_lateFailures_eq_nil (h : a.WellFormed) (hlate : a.lateFailures = [])
    (hs : s ∈ a.heads) (hbase : s.base = .external image) (hbare : image.isBare = true) :
    ∀ t ∈ a.heads, Aliases.isCalled image.repository t.givenName = false := by
  have hunresolved : (image.repository, s.openingLines) ∈ a.unresolved := by
    rw [h.unresolved, List.mem_flatMap]
    exact ⟨s, hs, Stage.mem_unresolved.mpr ⟨image, hbase, hbare, rfl⟩⟩
  rw [lateFailures, List.map_eq_nil_iff, List.filter_eq_nil_iff] at hlate
  have hposition := hlate _ hunresolved
  rw [Option.not_isSome_iff_eq_none, aliases_eq, Aliases.position, List.findIdx?_eq_none_iff,
    List.forall_mem_map] at hposition
  exact hposition

end Assembly

namespace Progress

variable {settings : Settings} {p q r : Progress} {index : Nat} {e : Entry} {t : Trace}
  {ts : List Trace}

theorem Placed.based (h : Placed p index e q) (hp : p.assembly.Based) : q.assembly.Based := by
  cases h with
  | opens hi ha => exact hp.openStage ha
  | declares hi hs hk => exact hp
  | joins hi ha => exact hp.push ha

/-- **Every line that is dealt with leaves stages built on what their names stand for.** -/
theorem Handled.based (h : Handled settings p t q) (hp : p.assembly.Based) : q.assembly.Based := by
  rcases h.landed with ⟨-, rfl⟩ | ⟨e, -, -, hq⟩
  · exact hp
  · exact hq.based hp

theorem Passage.based (h : Passage settings p ts r) (hp : p.assembly.Based) : r.assembly.Based :=
  h.invariant (I := fun p => p.assembly.Based) (fun _ _ _ ht => ht.based) hp

end Progress

namespace Document

variable {a : Assembly} {scope : Scope} {s : Stage} {k : Nat}

/-- A stage at the end is one that was opened there. -/
theorem head_of_finish (hs : (a.finish scope)[k]? = some s) : a.heads[k]? = some s.head := by
  rw [← Assembly.map_head_finish a scope, List.getElem?_map, hs, Option.map_some]

/-- A stage that was opened is there in the end. -/
theorem exists_of_head {t : Stage} (ht : a.heads[k]? = some t) (scope : Scope) :
    ∃ s, (a.finish scope)[k]? = some s ∧ s.head = t := by
  rw [← Assembly.map_head_finish a scope, List.getElem?_map] at ht
  exact Option.map_eq_some_iff.mp ht

/-- **What a stage is built on is settled by the name in its FROM.**

1. A name that is not bare is that of an image.
2. A bare name that an earlier stage has, whatever the case of its letters, is that stage.  No other
   stage of the file has the name.
3. A bare name that no earlier stage has is `scratch`, or it is that of an image.  Then, if no
   failures are recorded, no stage of the file has the name. -/
theorem base_of_readLines (settings : Settings) (texts : List Text) (d : Document)
    (h : readLines settings texts = .ok d) (k : Nat) (s : Stage) (hs : d.stages[k]? = some s) :
    let m := s.opening.image
    (m.isBare = false → s.base = .external m) ∧
      (m.isBare = true → ∀ i t, i < k → d.stages[i]? = some t →
        Aliases.isCalled m.repository t.givenName = true →
          s.base = .stage i ∧ ∀ j u, d.stages[j]? = some u →
            Aliases.isCalled m.repository u.givenName = true → j = i) ∧
      (m.isBare = true →
        (∀ i t, i < k → d.stages[i]? = some t →
          Aliases.isCalled m.repository t.givenName = false) →
        (Text.sameName m.repository "scratch".toList = true → s.base = .scratch) ∧
          (Text.sameName m.repository "scratch".toList = false → s.base = .external m ∧
            (settings.bestEffort = false →
              ∀ t ∈ d.stages, Aliases.isCalled m.repository t.givenName = false))) := by
  obtain ⟨ts, p, -, hpassage, hlate, -, rfl⟩ := passage_of_readLines h
  have hp := (hpassage.wellFormed (wellFormed_start _)).assembly
  rw [Progress.stages_final] at hs
  have hhead := head_of_finish hs
  obtain ⟨b, hb, hbase⟩ := hpassage.based Assembly.based_empty k s.head hhead
  have hbase : s.base = b.resolveBase s.opening.image := hbase
  -- names that differ at the end differ before every stage
  have hdistinct : b.aliases.Distinct := by
    have hall := hp.distinct
    rw [Assembly.aliases_eq] at hall ⊢
    rw [hb, List.map_take]
    exact hall.sublist (List.take_sublist _ _)
  have hearlier : ∀ i, i < k → ∀ t, (p.assembly.finish p.scope)[i]? = some t →
      b.heads[i]? = some t.head := by
    intro i hi t ht
    rw [hb, List.getElem?_take_of_lt hi]
    exact head_of_finish ht
  dsimp only
  rw [hbase, Progress.stages_final]
  refine ⟨Assembly.resolveBase_of_not_bare, ?_, ?_⟩
  · intro hbare i t hi ht hcalled
    refine ⟨Assembly.resolveBase_of_called hdistinct hbare (hearlier i hi t ht) hcalled, ?_⟩
    have hposition : ∀ j u, (p.assembly.finish p.scope)[j]? = some u →
        Aliases.isCalled s.opening.image.repository u.givenName = true →
          p.assembly.aliases.position s.opening.image.repository = some j := by
      intro j u hu hucalled
      refine hp.distinct.position_of_called ?_ hucalled
      rw [Assembly.aliases_eq, List.getElem?_map, head_of_finish hu]
      rfl
    intro j u hu hucalled
    have hsame := (hposition j u hu hucalled).symm.trans (hposition i t ht hcalled)
    exact Option.some.inj hsame
  · intro hbare hnone
    have hresolve := Assembly.resolveBase_of_not_called (a := b) hbare (by
      intro t ht
      obtain ⟨i, hi⟩ := List.mem_iff_getElem?.mp ht
      rw [hb, List.getElem?_take, Option.ite_none_right_eq_some] at hi
      obtain ⟨u, hu, rfl⟩ := exists_of_head hi.2 p.scope
      exact hnone i u hi.1 hu)
    refine ⟨fun hscratch => ?_, fun hscratch => ?_⟩
    · rw [hresolve, if_pos hscratch]
    · rw [if_neg (by rw [hscratch]; exact Bool.false_ne_true)] at hresolve
      refine ⟨hresolve, fun hstrict t ht => ?_⟩
      obtain ⟨u, hu, rfl⟩ := Assembly.mem_finish.mp ht
      exact Assembly.isCalled_of_lateFailures_eq_nil hp (hlate hstrict)
        (List.mem_of_getElem? hhead) (hbase.trans hresolve) hbare u.head (List.mem_map_of_mem hu)

/-- A stage that is named in other letters than its own, and a name that no stage has. -/
theorem base_of_readLines_bare :
    ∃ d s t, readLines {} ["FROM alpine:3 AS build".toList, "FROM BUILD AS next".toList,
        "FROM Scratch".toList, "FROM busybox".toList] = .ok d ∧
      d.stages[1]? = some s ∧ s.base = .stage 0 ∧ d.stages[3]? = some t ∧
        t.base = .external ⟨none, "busybox".toList, none, none⟩ ∧
        ∀ u ∈ d.stages, Aliases.isCalled "busybox".toList u.givenName = false := by
  let seen (s : Stage) : ImageName × Option Text := (s.opening.image, s.givenName)
  obtain ⟨d, hd, hseen⟩ := ok_of_map (x := readLines {} ["FROM alpine:3 AS build".toList,
      "FROM BUILD AS next".toList, "FROM Scratch".toList, "FROM busybox".toList])
    (f := fun d => d.stages.map seen)
    (b := [(⟨none, "alpine".toList, some "3".toList, none⟩, some "build".toList),
      (⟨none, "BUILD".toList, none, none⟩, some "next".toList),
      (⟨none, "Scratch".toList, none, none⟩, none),
      (⟨none, "busybox".toList, none, none⟩, none)]) (by decide +kernel)
  have hseen : d.stages.map seen = _ := hseen
  have hget : ∀ k, (d.stages[k]?).map seen = (d.stages.map seen)[k]? :=
    fun k => List.getElem?_map.symm
  have hnone : ∀ u ∈ d.stages, Aliases.isCalled "busybox".toList u.givenName = false := by
    intro u hu
    have hmem := List.mem_map_of_mem (f := seen) hu
    rw [hseen] at hmem
    have hall : ∀ x ∈ [(⟨none, "alpine".toList, some "3".toList, none⟩, some "build".toList),
        (⟨none, "BUILD".toList, none, none⟩, some "next".toList),
        (⟨none, "Scratch".toList, none, none⟩, none),
        ((⟨none, "busybox".toList, none, none⟩ : ImageName), none)],
        Aliases.isCalled "busybox".toList x.2 = false := by decide
    exact hall (seen u) hmem
  obtain ⟨r, hr, hrseen⟩ := Option.map_eq_some_iff.mp ((hget 0).trans (by rw [hseen]; rfl))
  obtain ⟨s, hs, hsseen⟩ := Option.map_eq_some_iff.mp ((hget 1).trans (by rw [hseen]; rfl))
  obtain ⟨t, ht, htseen⟩ := Option.map_eq_some_iff.mp ((hget 3).trans (by rw [hseen]; rfl))
  obtain ⟨himage, -⟩ := Prod.mk.inj hsseen
  obtain ⟨-, hname⟩ := Prod.mk.inj hrseen
  obtain ⟨htimage, -⟩ := Prod.mk.inj htseen
  have hearlier := (base_of_readLines _ _ d hd 1 s hs).2.1
  have houtside := (base_of_readLines _ _ d hd 3 t ht).2.2
  dsimp only at hearlier houtside
  rw [himage] at hearlier
  rw [htimage] at houtside
  obtain ⟨hexternal, -⟩ := (houtside (by decide)
    (fun i u _ hu => hnone u (List.mem_of_getElem? hu))).2 (by decide)
  exact ⟨d, s, t, hd, hs, (hearlier (by decide) 0 r (by omega) hr (by rw [hname]; decide)).1, ht,
    hexternal, hnone⟩

end Document

end Containerfile
