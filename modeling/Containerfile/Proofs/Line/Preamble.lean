import Containerfile.Document.Basic
import Containerfile.Proofs.Instruction.Lines

/-! # Printed preambles

The directives of a document are printed as comments before everything else, with an empty line
after them.  Read again, they are the directives of the document, the escape directive aside
(`Preamble.read_printed`); the first line that begins with a letter ends them. -/
namespace Containerfile

open Text

namespace PhysicalLine

variable {t : Text} {ts : List Text}

theorem head?_of_dropReturn {c : Char} (h : (dropReturn t).head? = some c) : t.head? = some c := by
  rw [dropReturn] at h
  split at h
  · rename_i hlast
    obtain ⟨u, rfl⟩ := List.getLast?_eq_some_iff.mp hlast
    rw [List.dropLast_concat] at h
    rw [List.head?_append, h]
    rfl
  · exact h

theorem map_text_numberFrom {n : Nat} (hn : 1 < n) (ts : List Text) :
    (numberFrom n ts).map text = ts.map dropReturn := by
  induction ts generalizing n with
  | nil => rfl
  | cons t ts ih =>
    have hne : n ≠ 1 := by omega
    rw [numberFrom, List.map_cons, List.map_cons, if_neg hne, ih (by omega)]

/-- The texts of the lines of a file that begins with a visible character. -/
theorem map_text_ofLines {c : Char} (hc : c ≠ byteOrderMark)
    (h : (ts.map dropReturn).head?.bind List.head? = some c) :
    (ofLines ts).map text = ts.map dropReturn := by
  cases ts with
  | nil => rfl
  | cons t ts =>
    have hhead : t.head? = some c := head?_of_dropReturn h
    obtain ⟨u, rfl⟩ : ∃ u, t = c :: u := by
      cases t with
      | nil => cases hhead
      | cons d u =>
        cases hhead
        exact ⟨u, rfl⟩
    rw [ofLines, numberFrom, List.map_cons, List.map_cons, if_pos rfl,
      map_text_numberFrom (by omega) ts, dropMark, if_neg hc]

end PhysicalLine

/-! ## Directives -/

/-- A directive as a line. -/
def directiveText (name : String) (value : Text) : Text :=
  "# ".toList ++ name.toList ++ '=' :: value

namespace Preamble

variable {name : String} {value : Text}

/-- The names of the directives that are printed. -/
theorem printed_name (h : name ∈ ["syntax", "check"]) :
    '=' ∉ ' ' :: name.toList ∧ Text.trim (' ' :: name.toList) = name.toList ∧
      isDirectiveName name.toList = true ∧ Text.lower name.toList = name.toList := by
  rcases List.mem_pair.mp h with rfl | rfl
  · decide
  · decide

theorem trim_directiveText (hne : value ≠ []) (ht : Trimmed value) :
    (directiveText name value).trim = directiveText name value := by
  have htrimmed : Trimmed ("# ".toList ++ (name.toList ++ ['=']) ++ value) := by
    refine trimmed_append (by decide) hne ?_ ht.2
    intro c hc
    cases hc
    decide
  apply trim_eq_self
  rw [directiveText, List.append_cons, List.append_assoc _ name.toList]
  exact htrimmed

/-- A directive is read back. -/
theorem splitDirective_directiveText (hname : name ∈ ["syntax", "check"]) (hne : value ≠ [])
    (ht : Trimmed value) :
    splitDirective (directiveText name value).trim = some (name.toList, value) := by
  obtain ⟨hmem, htrim, hdirective, hlower⟩ := printed_name hname
  have hsplit : Text.splitOnce '=' (' ' :: name.toList ++ '=' :: value) =
      some (' ' :: name.toList, value) := splitOnce_append hmem
  have hvalue : (!value.isEmpty) = true := by
    rw [Bool.not_eq_true', List.isEmpty_eq_false_iff]
    exact hne
  rw [trim_directiveText hne ht]
  show (Text.splitOnce '=' (' ' :: name.toList ++ '=' :: value)).bind _ = _
  rw [hsplit, Option.bind_some]
  simp only [htrim, hdirective, hlower, trim_eq_self ht, hvalue, Bool.and_self, if_true]
  rfl

variable {honor : Bool} {p : Preamble} {l : PhysicalLine} {ls : List PhysicalLine}

/-- An empty line is passed over. -/
theorem readOn_of_isEmpty (hl : l.isEmpty = true) :
    readOn honor p (l :: ls) = readOn honor p ls := by
  rw [readOn, if_pos hl]

theorem isEmpty_of_split {d : Text × Text} (h : splitDirective l.text.trim = some d) :
    l.isEmpty = false := by
  rw [← Bool.not_eq_true, PhysicalLine.isEmpty, List.isEmpty_iff]
  intro hl
  rw [hl] at h
  cases h

/-- A directive that is taken is passed over. -/
theorem readOn_of_split {name value : Text} (h : splitDirective l.text.trim = some (name, value))
    {q : Preamble} (hq : p.take honor name value l.number = some (.ok q)) :
    readOn honor p (l :: ls) = readOn honor q ls := by
  rw [readOn, isEmpty_of_split h, if_neg Bool.false_ne_true, h]
  simp only [hq]

theorem readOn_of_directive (hname : name ∈ ["syntax", "check"]) (hne : value ≠ [])
    (ht : Trimmed value) (hl : l.text = directiveText name value) {q : Preamble}
    (hq : p.take honor name.toList value l.number = some (.ok q)) :
    readOn honor p (l :: ls) = readOn honor q ls :=
  readOn_of_split (by rw [hl]; exact splitDirective_directiveText hname hne ht) hq

/-- The first directive of each name counts. -/
theorem readOn_frontend (hne : value ≠ []) (ht : Trimmed value)
    (hl : l.text = directiveText "syntax" value) (hp : p.directives.frontend = none) :
    readOn honor p (l :: ls) =
      readOn honor { p with directives := { p.directives with frontend := some value } } ls := by
  apply readOn_of_directive (by decide) hne ht hl
  rw [take, if_neg (by decide), if_pos rfl, hp]
  rfl

theorem readOn_check (hne : value ≠ []) (ht : Trimmed value)
    (hl : l.text = directiveText "check" value) (hp : p.directives.check = none) :
    readOn honor p (l :: ls) =
      readOn honor { p with directives := { p.directives with check := some value } } ls := by
  apply readOn_of_directive (by decide) hne ht hl
  rw [take, if_neg (by decide), if_neg (by decide), if_pos rfl, hp]
  rfl

theorem readOn_blank (hl : l.text = []) : readOn honor p (l :: ls) = readOn honor p ls :=
  readOn_of_isEmpty (by rw [PhysicalLine.isEmpty, hl]; rfl)

/-- A line that begins with a letter ends the preamble. -/
theorem readOn_lettered (hl : Lettered l.text) : readOn honor p (l :: ls) = ⟨p, .ok (l :: ls)⟩ := by
  have hidle := hl.not_idle
  rw [PhysicalLine.isIdle, Bool.or_eq_false_iff] at hidle
  obtain ⟨c, hc, halpha⟩ := hl.trim
  have hsplit : splitDirective l.text.trim = none := by
    unfold splitDirective
    split
    · rename_i body hbody
      rw [hbody] at hc
      cases hc
      exact absurd halpha (by decide)
    · rfl
  rw [readOn, hidle.1, hsplit]
  rfl

/-- **Printed directives are read back**, the escape directive aside. -/
theorem read_printed (honor : Bool) {ds : Directives} (hds : ds.Sound) {t : Text} {ts : List Text}
    (ht : Lettered t) (hls : ls.map PhysicalLine.text = Document.directiveLines ds ++ t :: ts) :
    ∃ rest, Preamble.read honor ls = ⟨{ directives := { ds with escape := none } }, .ok rest⟩ ∧
      rest.map PhysicalLine.text = t :: ts := by
  -- what follows the directives ends the preamble, whatever was known before
  have hend : ∀ {p : Preamble} {ks : List PhysicalLine}, ks.map PhysicalLine.text = t :: ts →
      readOn honor p ks = ⟨p, .ok ks⟩ := by
    intro p ks hks
    obtain ⟨k, ks', rfl, hk, -⟩ := List.map_eq_cons_iff.mp hks
    exact readOn_lettered (by rw [hk]; exact ht)
  have hblank : ∀ {p : Preamble} {ks : List PhysicalLine},
      ks.map PhysicalLine.text = [] :: t :: ts →
        ∃ rest, readOn honor p ks = ⟨p, .ok rest⟩ ∧ rest.map PhysicalLine.text = t :: ts := by
    intro p ks hks
    obtain ⟨k, rest, rfl, hk, hrest⟩ := List.map_eq_cons_iff.mp hks
    exact ⟨rest, by rw [readOn_blank hk, hend hrest], hrest⟩
  obtain ⟨escape, frontend, check⟩ := ds
  rw [read]
  cases frontend with
  | none =>
    cases check with
    | none => exact ⟨ls, hend hls, hls⟩
    | some c =>
      obtain ⟨k, ks, rfl, hk, hks⟩ := List.map_eq_cons_iff.mp hls
      obtain ⟨hne, htrim, -⟩ := hds c (by simp)
      rw [readOn_check hne htrim hk rfl]
      exact hblank hks
  | some v =>
    cases check with
    | none =>
      obtain ⟨k, ks, rfl, hk, hks⟩ := List.map_eq_cons_iff.mp hls
      obtain ⟨hne, htrim, -⟩ := hds v (by simp)
      rw [readOn_frontend hne htrim hk rfl]
      exact hblank hks
    | some c =>
      obtain ⟨k, ks, rfl, hk, hks⟩ := List.map_eq_cons_iff.mp hls
      obtain ⟨k', ks', rfl, hk', hks'⟩ := List.map_eq_cons_iff.mp hks
      obtain ⟨hne, htrim, -⟩ := hds v (by simp)
      obtain ⟨hne', htrim', -⟩ := hds c (by simp)
      rw [readOn_frontend hne htrim hk rfl, readOn_check hne' htrim' hk' rfl]
      exact hblank hks'

end Preamble

end Containerfile
