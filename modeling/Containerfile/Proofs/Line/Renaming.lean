import Containerfile.Line.Logical
import Containerfile.Proofs.Word.Renaming

/-! # Lines with other characters

Whether a line goes on, and which heredocs the text of an instruction announces, does not depend on
what its characters are called, as long as the escape character is called the same. -/
namespace Containerfile.Renaming

variable (σ : Renaming) (escape : Char) {t : Text}

theorem map_char_eq_some_iff {o : Option Char} {c : Char} :
    o.map σ.char = some (σ.char c) ↔ o = some c :=
  (Option.map_injective σ.injective).eq_iff (b := some c)

theorem map_char_eq_syntax_iff {o : Option Char} {c : Char} (hc : isSyntax c = true) :
    o.map σ.char = some c ↔ o = some c := by
  have hmap : o.map σ.char = some (σ.char c) ↔ o = some c := σ.map_char_eq_some_iff
  rwa [σ.keeps c hc] at hmap

/-! ## Lines that go on -/

theorem stripContinuation?_text (t : Text) :
    stripContinuation? (σ.char escape) (σ.text t) = (stripContinuation? escape t).map σ.text := by
  have hspace : ∀ c, (c == ' ' || c == '\t') = true → isSyntax c = true := by
    intro c hc
    rcases (Bool.or_eq_true _ _).mp hc with hc | hc <;> rw [beq_iff_eq.mp hc] <;> decide
  rw [stripContinuation?, stripContinuation?, σ.dropEndWhile_text hspace]
  simp only [getLast?_text, σ.map_char_eq_some_iff]
  split
  · exact congrArg some List.map_dropLast.symm
  · rfl

/-! ## Markers of heredocs -/

open HeredocMarker

theorem readWord_text (stripTabs : Bool) (quote : Option Quote) (t : Text) :
    readWord stripTabs quote (σ.text t) =
      (readWord stripTabs quote t).map fun p => (p.1, σ.text p.2) := by
  have hsyntax : ∀ c, isWordChar c = true → isSyntax c = true := fun _ => isSyntax_of_isNameChar
  simp only [readWord, σ.takeWhile_text hsyntax, σ.dropWhile_text hsyntax]
  split
  · rfl
  · cases quote with
    | none => rfl
    | some quote =>
      cases t.dropWhile isWordChar with
      | nil => rfl
      | cons c rest =>
        simp only [text_cons, σ.char_eq_quote_iff]
        split <;> rfl

theorem readQuoted_text (stripTabs : Bool) (t : Text) :
    readQuoted stripTabs (σ.text t) = (readQuoted stripTabs t).map fun p => (p.1, σ.text p.2) := by
  cases t with
  | nil => rfl
  | cons c t =>
    rw [text_cons, readQuoted, readQuoted, σ.ofChar?_char]
    split
    · exact σ.readWord_text stripTabs _ t
    · exact σ.readWord_text stripTabs none (c :: t)

theorem read_text (t : Text) :
    HeredocMarker.read (σ.text t) = (HeredocMarker.read t).map fun p => (p.1, σ.text p.2) := by
  fun_cases HeredocMarker.read t with
  | case1 t =>
    rw [text_cons, σ.keeps '-' (by decide)]
    exact σ.readQuoted_text true t
  | case2 t hdashless =>
    rw [HeredocMarker.read]
    · exact σ.readQuoted_text false t
    · intro u hu
      obtain ⟨v, hv, -⟩ := σ.of_text_eq_cons (by decide) hu
      exact hdashless v hv

/-- Where two angle brackets may announce a heredoc. -/
theorem opens_text (c : Char) (before : Option Char) (t : Text) :
    (σ.char c = '<' ∧ before.map σ.char ≠ some '<' ∧ (σ.text t).head? = some '<' ∧
        (σ.text t)[1]? ≠ some '<') ↔
      c = '<' ∧ before ≠ some '<' ∧ t.head? = some '<' ∧ t[1]? ≠ some '<' := by
  have hangle : isSyntax '<' = true := by decide
  rw [head?_text, text, List.getElem?_map, σ.char_eq_iff hangle, ne_eq, ne_eq,
    σ.map_char_eq_syntax_iff hangle, σ.map_char_eq_syntax_iff hangle,
    σ.map_char_eq_syntax_iff hangle]

theorem scan_text (quote : Option Quote) (before : Option Char) (t : Text) :
    scan (σ.char escape) quote (before.map σ.char) (σ.text t) = scan escape quote before t := by
  have hescape : ∀ (c : Char) (quote : Option Quote),
      (σ.char c = σ.char escape ∧ quote ≠ some .single) ↔ (c = escape ∧ quote ≠ some .single) :=
    fun c quote => and_congr_left' σ.char_inj
  -- what is tested of a character is the same for both, so the two scans go the same way at each
  fun_induction scan escape quote before t with
  | case1 => rw [text_nil, scan]
  | case2 quote before c hprotects =>
    rw [text_cons, scan.eq_def]
    dsimp only
    rw [if_pos ((hescape c quote).mpr hprotects), text_nil]
  | case3 quote before c hprotects d t ih =>
    rw [text_cons, scan.eq_def]
    dsimp only
    rw [if_pos ((hescape c quote).mpr hprotects), text_cons]
    exact ih
  | case4 before c t quote hfree ih =>
    rw [text_cons, scan.eq_def]
    dsimp only
    rw [if_neg (mt (hescape c (some quote)).mp hfree)]
    simp only [σ.char_eq_quote_iff]
    exact ih
  | case5 before c t hopens m rest hread hfree ih =>
    rw [text_cons, scan.eq_def]
    dsimp only
    rw [if_neg (mt (hescape c none).mp hfree), if_pos ((σ.opens_text c before t).mpr hopens)]
    have hread' : HeredocMarker.read ((σ.text t).drop 1) = some (m, σ.text rest) := by
      rw [text, ← List.map_drop, ← text, σ.read_text, hread]
      rfl
    split
    · rename_i heq
      cases hread'.symm.trans heq
      exact congrArg (m :: ·) ih
    · rename_i heq
      cases hread'.symm.trans heq
  | case6 before c t hopens hread hfree ih =>
    rw [text_cons, scan.eq_def]
    dsimp only
    rw [if_neg (mt (hescape c none).mp hfree), if_pos ((σ.opens_text c before t).mpr hopens)]
    have hread' : HeredocMarker.read ((σ.text t).drop 1) = none := by
      rw [text, ← List.map_drop, ← text, σ.read_text, hread]
      rfl
    split
    · rename_i heq
      cases hread'.symm.trans heq
    · exact ih
  | case7 before c t hcloses hfree ih =>
    rw [text_cons, scan.eq_def]
    dsimp only
    rw [if_neg (mt (hescape c none).mp hfree), if_neg (mt (σ.opens_text c before t).mp hcloses),
      σ.ofChar?_char]
    exact ih

theorem all_text (t : Text) :
    HeredocMarker.all (σ.char escape) (σ.text t) = HeredocMarker.all escape t :=
  σ.scan_text escape none none t

end Containerfile.Renaming
