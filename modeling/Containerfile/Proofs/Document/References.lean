import Containerfile.Proofs.Document.WellFormed
import Containerfile.Proofs.Text.Numeral

/-! # References to stages

A COPY that names a stage is resolved when only the stages up to its own are known.  It then names
an earlier one, and what it says names the same stage in the whole document: indices and names go on
to be found where they were (`Aliases.find_append`).

`Assembly.Linked` says this of the stages so far and is kept by every line that is dealt with
(`Progress.Handled.linked`).

Main statement: `Document.stage?_of_readLines`. -/
namespace Containerfile

namespace Assembly

variable {a b : Assembly} {opening : BaseImage} {lines : LineSpan} {e : Entry}

/-- Whether what is taken from stages is taken from earlier ones that are found under what was
written. -/
def Linked (a : Assembly) : Prop :=
  ∀ s ∈ a.stages.toList, ∀ e ∈ s.entries, ∀ index name,
    e.instruction.source? = some (.stage index name) →
      index < s.index ∧ a.aliases.find name = some index

theorem Linked.openStage (h : a.Linked) (hb : a.openStage opening lines = .ok b) : b.Linked := by
  rw [Linked, aliases_of_openStage hb]
  obtain ⟨-, rfl⟩ := openStage_eq_ok_iff.mp hb
  rw [Draft.toList_begin, List.forall_mem_append, List.forall_mem_singleton]
  refine ⟨?_, ?_⟩
  · intro s hs e he index name hsource
    obtain ⟨hlt, hfind⟩ := h s hs e he index name hsource
    exact ⟨hlt, Aliases.find_append hfind _⟩
  · -- a FROM takes nothing from a stage
    intro e he index name hsource
    obtain rfl := List.mem_singleton.mp he
    cases hsource

theorem Linked.push (h : a.Linked) (ha : a.WellFormed) (he : e.instruction.Fits a.aliases)
    (hb : a.push e = .ok b) : b.Linked := by
  rw [Linked, aliases_of_push hb]
  obtain ⟨-, rfl⟩ := push_eq_ok_iff.mp hb
  intro s hs k hk index name hsource
  obtain ⟨j, hj⟩ := List.mem_iff_getElem?.mp hs
  obtain ⟨t, ht, rfl | ⟨hlast, rfl⟩⟩ := Draft.getElem?_modify hj
  · exact h s (List.mem_of_getElem? ht) k hk index name hsource
  · rcases List.mem_append.mp (show k ∈ t.entries ++ [e] from hk) with hk | hk
    · exact h t (List.mem_of_getElem? ht) k hk index name hsource
    · -- the new entry joins the last stage, which is not one of the earlier ones
      obtain rfl := List.mem_singleton.mp hk
      obtain ⟨hfind, hlt⟩ := Aliases.resolveEarlier_eq_some_iff.mp (he.resolved index name hsource)
      have hindex : t.index = j := ha.indexed j t ht
      rw [length_aliases] at hlt
      refine ⟨?_, hfind⟩
      show index < t.index
      omega

end Assembly

namespace Progress

variable {settings : Settings} {p q r : Progress} {index : Nat} {e : Entry} {t : Trace}
  {ts : List Trace}

theorem Placed.linked (h : Placed p index e q) (hp : p.WellFormed)
    (he : e.instruction.Fits p.assembly.aliases) (hlinked : p.assembly.Linked) :
    q.assembly.Linked := by
  cases h with
  | opens hi ha => exact hlinked.openStage ha
  | declares hi hs hk => exact hlinked
  | joins hi ha => exact hlinked.push hp.assembly he ha

/-- **Every line that is dealt with keeps the references right.** -/
theorem Handled.linked (h : Handled settings p t q) (hp : p.WellFormed)
    (hlinked : p.assembly.Linked) : q.assembly.Linked := by
  rcases h.landed with ⟨-, rfl⟩ | ⟨e, -, hfits, hq⟩
  · exact hlinked
  · exact hq.linked (hp.past t.found) hfits hlinked

theorem Passage.linked (h : Passage settings p ts r) (hp : p.WellFormed)
    (hlinked : p.assembly.Linked) : r.assembly.Linked :=
  (h.invariant (I := fun q => q.WellFormed ∧ q.assembly.Linked)
    (fun _ _ _ ht hq => ⟨ht.wellFormed hq.1, ht.linked hq.1 hq.2⟩) ⟨hp, hlinked⟩).2

end Progress

namespace Document

variable {d : Document} {s : Stage} {name : Text}

/-- The stage of an index or name is the one that a reference finds. -/
theorem stage?_eq (d : Document) (name : Text) :
    d.stage? name = (Aliases.find (d.stages.map Stage.givenName) name).bind (d.stages[·]?) := by
  rw [stage?, Aliases.find]
  rcases Numeral.read Numeral.greatest64 name with fault | index
  · dsimp only
    rw [Aliases.position, List.findIdx?_map, List.find?_eq_bind_findIdx?_getElem?]
    rfl
  · dsimp only
    split
    · rfl
    · rename_i hindex
      rw [List.length_map] at hindex
      exact List.getElem?_eq_none (by omega)

/-- A stage with a name is found under it, since no other one has it and it is no numeral. -/
theorem WellFormed.stage?_givenName (h : d.WellFormed) (hs : s ∈ d.stages)
    (hname : s.givenName = some name) : d.stage? name = some s := by
  obtain ⟨k, hk⟩ := List.mem_iff_getElem?.mp hs
  have hdistinct : Aliases.Distinct (d.stages.map Stage.givenName) := by
    rw [Aliases.Distinct, List.pairwise_map]
    refine h.distinct.imp fun hst m hm n hn => ?_
    simpa [Text.sameName] using hst m hm n hn
  have hposition : Aliases.position (d.stages.map Stage.givenName) name = some k := by
    refine hdistinct.position ?_
    rw [List.getElem?_map, hk, Option.map_some, hname]
  obtain ⟨c, t, rfl, hletter, -⟩ := h.named s hs name hname
  rw [stage?_eq, Aliases.find, Numeral.read_of_isAlpha hletter]
  dsimp only
  rw [hposition]
  exact hk

/-- A stage is found under its index. -/
theorem WellFormed.stage?_index (h : d.WellFormed) (hs : s ∈ d.stages)
    (hindex : s.index ≤ Numeral.greatest64) : d.stage? (Nat.toDigits 10 s.index) = some s := by
  obtain ⟨k, hk⟩ := List.mem_iff_getElem?.mp hs
  rw [stage?, Numeral.read_toDigits hindex, h.indexed k s hk]
  exact hk

/-- Whether what is taken from stages is taken from earlier ones that are found under what was
written. -/
def Linked (d : Document) : Prop :=
  ∀ s ∈ d.stages, ∀ e ∈ s.entries, ∀ index name,
    e.instruction.source? = some (.stage index name) →
      index < s.index ∧ Aliases.find (d.stages.map Stage.givenName) name = some index

/-- The stages are linked at the end as they were before their bindings were added. -/
theorem linked_final {p : Progress} (hp : p.assembly.Linked) (directives : Directives) :
    (p.final directives).Linked := by
  intro s hs e he index name hsource
  obtain ⟨t, ht, rfl⟩ := Assembly.mem_finish.mp hs
  rw [Progress.stages_final, Assembly.map_givenName_finish]
  exact hp t ht e he index name hsource

theorem linked_of_readLines {settings : Settings} {texts : List Text}
    (h : readLines settings texts = .ok d) : d.WellFormed ∧ d.Linked := by
  obtain ⟨ts, p, -, hpassage, -, hcheck, rfl⟩ := passage_of_readLines h
  have hstart : (start (Layout.read settings.escapeDirective texts)).assembly.Linked := by
    simp [Assembly.Linked, start]
  exact ⟨wellFormed_final (hpassage.wellFormed (wellFormed_start _)) hcheck _,
    linked_final (hpassage.linked (wellFormed_start _) hstart) _⟩

/-- **References name earlier stages, and the same ones in the whole document.**

1. What a stage takes files from, if it is a stage, is an earlier one, and what was written names
   that one in the document.
2. A stage is found under what it is called: its name, or else its index, which is one of 64
   bits. -/
theorem stage?_of_readLines (settings : Settings) (texts : List Text) (d : Document)
    (h : readLines settings texts = .ok d) :
    (∀ (k : Nat) (s : Stage), d.stages[k]? = some s → ∀ e ∈ s.entries, ∀ index name,
      e.instruction.source? = some (.stage index name) →
        index < k ∧ ∃ t, d.stages[index]? = some t ∧ t.index = index ∧ d.stage? name = some t) ∧
    ∀ s ∈ d.stages, (s.givenName = none → s.index ≤ Numeral.greatest64) →
      d.stage? s.name = some s := by
  obtain ⟨hwell, hlinked⟩ := linked_of_readLines h
  refine ⟨?_, ?_⟩
  · intro k s hs e he index name hsource
    obtain ⟨hlt, hfind⟩ := hlinked s (List.mem_of_getElem? hs) e he index name hsource
    rw [hwell.indexed k s hs] at hlt
    have hk := (List.getElem?_eq_some_iff.mp hs).1
    have hindex : index < d.stages.length := by omega
    have hget : d.stages[index]? = some d.stages[index] := List.getElem?_eq_getElem hindex
    refine ⟨hlt, d.stages[index], hget, hwell.indexed index _ hget, ?_⟩
    rw [stage?_eq, hfind]
    exact hget
  · intro s hs hindex
    rw [Stage.name]
    cases hname : s.givenName with
    | some name => exact hwell.stage?_givenName hs hname
    | none => exact hwell.stage?_index hs (hindex hname)

/-- A reference with a sign and leading zeros, and one with another case, from a stage without a
name. -/
theorem stage?_of_readLines_spellings :
    ∃ d s, readLines {} ["FROM scratch AS a".toList, "FROM scratch".toList,
        "COPY --from=+00 x y".toList, "COPY --from=A x y".toList, "FROM a AS b".toList] = .ok d ∧
      d.stages[1]? = some s ∧ s.index = 1 ∧
      s.entries.map (·.instruction.source?) =
        [none, some (.stage 0 "+00".toList), some (.stage 0 "A".toList)] ∧
      (∀ name ∈ ["+00".toList, "A".toList],
        ∃ t, d.stages[0]? = some t ∧ t.index = 0 ∧ d.stage? name = some t) ∧
      d.stage? s.name = some s := by
  obtain ⟨d, hd, hstages⟩ := ok_of_map
    (x := readLines {} ["FROM scratch AS a".toList, "FROM scratch".toList,
      "COPY --from=+00 x y".toList, "COPY --from=A x y".toList, "FROM a AS b".toList])
    (f := fun d => d.stages.map fun s => (s.index, s.entries.map (·.instruction.source?)))
    (b := [(0, [none]),
      (1, [none, some (.stage 0 "+00".toList), some (.stage 0 "A".toList)]), (2, [none])])
    (by decide +kernel)
  obtain ⟨hsources, hnames⟩ := stage?_of_readLines _ _ d hd
  -- the second stage is the one with the references
  have hsecond := congrArg (·[1]?) hstages
  obtain ⟨s, hs, hpair⟩ := Option.map_eq_some_iff.mp (List.getElem?_map.symm.trans hsecond)
  obtain ⟨hindex, hentries⟩ := Prod.mk.inj hpair
  refine ⟨d, s, hd, hs, hindex, hentries, ?_, ?_⟩
  · intro name hname
    have hmem : some (.stage 0 name) ∈ s.entries.map (·.instruction.source?) := by
      rw [hentries]
      simpa using hname
    obtain ⟨e, he, hsource⟩ := List.mem_map.mp hmem
    exact (hsources 1 s hs e he 0 name hsource).2
  · exact hnames s (List.mem_of_getElem? hs) fun _ => by
      rw [hindex]
      decide

end Document

end Containerfile
