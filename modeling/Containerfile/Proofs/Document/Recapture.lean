import Containerfile.Proofs.Document.Encodings
import Containerfile.Proofs.Instruction.Lines
import Containerfile.Proofs.Line.Insertion
import Containerfile.Proofs.Line.Reader
import Containerfile.Proofs.Line.Unnumbered

/-! # Printed heredocs are captured again

The lines of a heredoc are printed as it holds them, and its delimiter after them.  A line that did
not end the heredoc does not end it without its leading tabs either, and the delimiter does
(`HeredocMarker.capture_printed`).  So what is printed for heredocs is captured for their markers,
one after the other (`Captured.again`), and the text of an instruction announces the markers it
announced before if it is not continued (`LogicalLine.readAt_again`).

Not all bodies are printed: one that is a single empty line is printed as no line at all, and is the
same body when it is captured (`HeredocMarker.printedLines_heredoc`).

Main statement: `Layout.heredocs_again`. -/
namespace Containerfile

open Text PhysicalLine

namespace HeredocMarker

variable {m : HeredocMarker} {t : Text} {ls ls' body rest : List PhysicalLine}
  {terminator : PhysicalLine} {opening : Nat} {us : List Text}

/-! ## One heredoc -/

theorem content_subset (m : HeredocMarker) (t : Text) : m.content t ⊆ t := by
  rw [content]
  split
  · exact List.dropWhile_subset _
  · exact List.Subset.refl t

/-- Leading tabs are deleted once. -/
theorem content_content (m : HeredocMarker) (t : Text) : m.content (m.content t) = m.content t := by
  rw [content, content]
  by_cases hs : m.stripTabs = true
  · rw [if_pos hs, if_pos hs, List.dropWhile_idempotent]
  · rw [if_neg hs, if_neg hs]

/-- A delimiter ends its heredoc. -/
theorem isTerminator_delimiter (h : isWord m.delimiter = true) :
    m.isTerminator m.delimiter = true := by
  have hblank := isBlank_of_isWord h
  have hcontent : m.content m.delimiter = m.delimiter := by
    rw [content]
    split
    · cases hd : m.delimiter with
      | nil => rfl
      | cons c t =>
        have hc : isBlank c = false := hblank c (by rw [hd]; exact List.mem_cons_self)
        refine List.dropWhile_cons_of_neg fun htab => ?_
        rw [beq_iff_eq] at htab
        rw [htab] at hc
        exact absurd hc (by decide)
    · rfl
  rw [isTerminator, hcontent, trimEnd_eq_self fun c hc => hblank c (List.mem_of_getLast? hc),
    beq_iff_eq]

/-- **How a captured heredoc is printed**: lines of its body as it holds them, and the delimiter. -/
theorem printedLines_heredoc (m : HeredocMarker) (opening : Nat) (terminator : PhysicalLine)
    (hbody : ∀ l ∈ body, OneLine l.text) :
    ∃ ks ⊆ body, (m.heredoc body opening terminator).printedLines =
        (ks.map fun l => m.content l.text) ++ [m.delimiter] ∧
      join ['\n'] (ks.map fun l => m.content l.text) =
        (m.heredoc body opening terminator).body := by
  have hjoin : (m.heredoc body opening terminator).body =
      join ['\n'] (body.map fun l => m.content l.text) := rfl
  rw [Heredoc.printedLines, hjoin]
  by_cases hempty : (join ['\n'] (body.map fun l => m.content l.text)).isEmpty = true
  · refine ⟨[], List.nil_subset _, ?_, ?_⟩
    · rw [if_pos hempty]
      rfl
    · rw [List.isEmpty_iff.mp hempty]
      rfl
  · refine ⟨body, List.Subset.refl _, ?_, rfl⟩
    have hparts : ∀ p ∈ body.map fun l => m.content l.text, '\n' ∉ p := by
      intro p hp
      obtain ⟨l, hl, rfl⟩ := List.mem_map.mp hp
      exact m.oneLine_content (hbody l hl)
    have hne : (body.map fun l => m.content l.text) ≠ [] := by
      intro hnil
      rw [hnil] at hempty
      exact hempty rfl
    rw [if_neg hempty, splitAll_join hparts hne]
    rfl

/-- **What is printed for a heredoc is captured for its marker**, with the same body. -/
theorem capture_printed (hword : isWord m.delimiter = true) (hls : ∀ l ∈ ls, OneLine l.text)
    (h : m.capture ls = some (body, terminator, rest))
    (hprinted : ls'.map text = (m.heredoc body opening terminator).printedLines ++ us) :
    ∃ body' terminator' rest', m.capture ls' = some (body', terminator', rest') ∧
      rest'.map text = us ∧ ∀ opening',
        (m.heredoc body' opening' terminator').unnumbered =
          (m.heredoc body opening terminator).unnumbered := by
  obtain ⟨rfl, -, hopen⟩ := capture_eq_some_iff.mp h
  obtain ⟨ks, hks, hlines, hjoin⟩ := m.printedLines_heredoc opening terminator fun l hl =>
    hls l (List.mem_append_left _ hl)
  rw [hlines, List.append_assoc, List.map_eq_append_iff] at hprinted
  obtain ⟨body', more, rfl, hbody', hmore⟩ := hprinted
  obtain ⟨terminator', rest', rfl, hterminator, hrest⟩ := List.map_eq_cons_iff.mp hmore
  have hcontents : (body'.map fun l => m.content l.text) = ks.map fun l => m.content l.text := by
    have htwice : body'.map (fun l => m.content l.text) = (body'.map text).map m.content := by
      rw [List.map_map]
      rfl
    rw [htwice, hbody', List.map_map]
    exact List.map_congr_left fun l _ => m.content_content l.text
  refine ⟨body', terminator', rest', capture_eq_some_iff.mpr ⟨rfl, ?_, ?_⟩, hrest,
    fun opening' => ?_⟩
  · rw [hterminator]
    exact isTerminator_delimiter hword
  · intro l hl
    have hmem : l.text ∈ ks.map fun l => m.content l.text := by
      rw [← hbody']
      exact List.mem_map_of_mem hl
    obtain ⟨k, hk, hkl⟩ := List.mem_map.mp hmem
    have hno := hopen k (hks hk)
    rw [isTerminator] at hno ⊢
    rw [← hkl, content_content]
    exact hno
  · have hsame : (m.heredoc body' opening' terminator').body =
        (m.heredoc body opening terminator).body := by
      rw [← hjoin, ← hcontents]
      rfl
    rw [Heredoc.unnumbered, Heredoc.unnumbered, hsame]
    rfl

end HeredocMarker

namespace Captured

variable {opening : Nat} {ls ls' : List PhysicalLine} {ms : List HeredocMarker} {c : Captured}

/-- **What is printed for heredocs is captured for their markers**, all of it. -/
theorem again (hw : ∀ m ∈ ms, HeredocMarker.isWord m.delimiter = true)
    (hls : ∀ l ∈ ls, OneLine l.text) (h : of opening ls ms = .ok c)
    (hprinted : ls'.map text = c.heredocs.flatMap Heredoc.printedLines) (opening' : Nat) :
    ∃ c', of opening' ls' ms = .ok c' ∧ c'.rest = [] ∧
      c'.heredocs.map Heredoc.unnumbered = c.heredocs.map Heredoc.unnumbered := by
  induction ms generalizing opening ls ls' c opening' with
  | nil =>
    cases h
    rw [List.flatMap_nil, List.map_eq_nil_iff] at hprinted
    rw [hprinted]
    exact ⟨_, rfl, rfl, rfl⟩
  | cons m ms ih =>
    obtain ⟨body, terminator, rest, d, hm, hd, rfl⟩ := of_cons_eq_ok_iff.mp h
    rw [List.forall_mem_cons] at hw
    rw [List.flatMap_cons] at hprinted
    obtain ⟨body', terminator', rest', hm', hrest', hsame⟩ :=
      HeredocMarker.capture_printed hw.1 hls hm hprinted
    obtain ⟨rfl, -, -⟩ := HeredocMarker.capture_eq_some_iff.mp hm
    have hrest : ∀ l ∈ rest, OneLine l.text := fun l hl =>
      hls l (List.mem_append_right _ (List.mem_cons_of_mem _ hl))
    obtain ⟨d', hd', hnone, hheredocs⟩ := ih hw.2 hrest hd hrest' terminator'.number
    refine ⟨_, of_cons_eq_ok_iff.mpr ⟨body', terminator', rest', d', hm', hd', rfl⟩, hnone, ?_⟩
    rw [List.map_cons, List.map_cons, hsame, hheredocs]

end Captured

/-! ## Logical lines -/

/-- A trimmed text that does not end in the escape character is not continued. -/
theorem stripContinuation?_of_trimmed {escape : Char} {t : Text} (ht : Trimmed t)
    (hlast : t.getLast? ≠ some escape) : stripContinuation? escape t = none := by
  have hself : t.dropEndWhile (fun c => c == ' ' || c == '\t') = t := by
    rw [dropEndWhile_eq_rdropWhile, List.rdropWhile_eq_self_iff]
    intro hne hblank
    have hvisible := ht.2 _ (List.getLast?_eq_some_getLast hne)
    rw [Bool.or_eq_true, beq_iff_eq, beq_iff_eq] at hblank
    rcases hblank with hblank | hblank
    · rw [hblank] at hvisible
      exact absurd hvisible (by decide)
    · rw [hblank] at hvisible
      exact absurd hvisible (by decide)
  unfold stripContinuation?
  dsimp only
  rw [hself, if_neg hlast]

/-! ### Keywords -/

theorem lettered_of_sameName {t u : Text} (hu : Lettered (lower u)) (h : sameName t u = true) :
    Lettered t := by
  rw [sameName, beq_iff_eq] at h
  rw [← h] at hu
  obtain ⟨d, hd, halpha⟩ := hu
  cases t with
  | nil => cases hd
  | cons c t =>
    cases hd
    exact ⟨c, rfl, isAlpha_of_toLower halpha⟩

/-- An instruction that may have heredocs begins with a letter. -/
theorem lettered_of_opensHeredocs {t : Text} (ht : Trimmed t) (h : opensHeredocs t = true) :
    Lettered t := by
  have hfirst : Lettered (firstWord t).1 := by
    unfold opensHeredocs at h
    dsimp only at h
    by_cases honbuild : sameName (firstWord t).1 "ONBUILD".toList = true
    · exact lettered_of_sameName ⟨'o', rfl, by decide⟩ honbuild
    · rw [if_neg honbuild, List.any_eq_true] at h
      obtain ⟨k, hk, hsame⟩ := h
      rcases List.mem_cons.mp hk with rfl | hk
      · exact lettered_of_sameName ⟨'r', rfl, by decide⟩ hsame
      · rcases List.mem_pair.mp hk with rfl | rfl
        · exact lettered_of_sameName ⟨'c', rfl, by decide⟩ hsame
        · exact lettered_of_sameName ⟨'a', rfl, by decide⟩ hsame
  obtain ⟨c, hc, halpha⟩ := hfirst
  rw [firstWord, trim_eq_self ht, List.head?_takeWhile] at hc
  exact ⟨c, (Option.filter_eq_some_iff.mp hc).1, halpha⟩

namespace LogicalLine

variable {escape : Char} {first first' : PhysicalLine} {ls ls' rest : List PhysicalLine}
  {l : LogicalLine}

/-- **A logical line is read again from its text and its printed heredocs**, which it takes all. -/
theorem readAt_again (hls : ∀ k ∈ ls, OneLine k.text) (h : readAt escape first ls = .ok (l, rest))
    (hlast : l.text.getLast? ≠ some escape) (hfirst : first'.text = l.text)
    (hprinted : ls'.map PhysicalLine.text = l.heredocs.flatMap Heredoc.printedLines) :
    ∃ l', readAt escape first' ls' = .ok (l', []) ∧ l'.text = l.text ∧
      l'.heredocs.map Heredoc.unnumbered = l.heredocs.map Heredoc.unnumbered ∧
      l'.raw = join ['\n'] ((first' :: ls').map PhysicalLine.text) ∧
      l'.lines = .between first'.number (ls'.getLast?.getD first').number := by
  obtain ⟨c, hc, rfl, -⟩ := readAt_eq_ok_iff.mp h
  have hparts := Joined.joined_append_rest escape first.text ls
  generalize Joined.of escape first.text ls = j at *
  have hrest : ∀ k ∈ j.rest, OneLine k.text := by
    rw [← hparts] at hls
    exact fun k hk => hls k (List.mem_append_right _ hk)
  have htrimmed : Trimmed (assemble first j c).text := trimmed_trim j.text
  have hstrip := stripContinuation?_of_trimmed htrimmed hlast
  rw [← hfirst] at hstrip
  have hjoined : Joined.of escape first'.text ls' = ⟨first'.text, [], ls'⟩ := by
    cases ls' with
    | nil =>
      rw [Joined.of, hstrip]
      rfl
    | cons k ks => exact Joined.of_cons_of_none hstrip
  have hsame : first'.text.trim = j.text.trim := by
    rw [hfirst]
    exact trim_eq_self htrimmed
  obtain ⟨c', hc', hnone, hheredocs⟩ := Captured.again isWord_of_mem_markers hrest hc hprinted
    first'.number
  have hcover := Captured.covered_append_rest hc'
  rw [hnone, List.append_nil] at hcover
  refine ⟨assemble first' ⟨first'.text, [], ls'⟩ c', readAt_eq_ok_iff.mpr ⟨c', ?_, ?_, hnone⟩,
    hsame, hheredocs, ?_, ?_⟩
  · rw [hjoined, hsame]
    exact hc'
  · rw [hjoined]
  · show join ['\n'] ((first' :: [] ++ c'.covered).map PhysicalLine.text) = _
    rw [hcover]
    rfl
  · show LineSpan.between first'.number
      ((first' :: [] ++ c'.covered).getLast?.getD first').number = _
    rw [hcover, List.cons_append, List.nil_append, List.getLast?_cons]
    rfl

/-- Only an instruction whose text begins with a letter has heredocs. -/
theorem lettered_of_heredocs (h : readAt escape first ls = .ok (l, rest)) (hne : l.heredocs ≠ []) :
    Lettered l.text := by
  obtain ⟨c, hc, rfl, -⟩ := readAt_eq_ok_iff.mp h
  rw [markers] at hc
  split at hc
  · rename_i hopens
    exact lettered_of_opensHeredocs (trimmed_trim _) hopens
  · cases hc
    exact absurd rfl hne

end LogicalLine

/-! ## What is printed -/

namespace Encoding

variable {t u : Text}

theorem Writable.subset (h : Writable t) (hu : u ⊆ t) : Writable u :=
  ⟨fun hr => h.1 (hu hr), fun hn => h.2 (hu hn)⟩

theorem writable_of_isWord (h : HeredocMarker.isWord t = true) : Writable t := by
  have hblank := HeredocMarker.isBlank_of_isWord h
  constructor
  · intro hr
    exact absurd (hblank _ hr) (by decide)
  · intro hn
    exact absurd (hblank _ hn) (by decide)

end Encoding

open Encoding (Writable)

/-- Heredocs from lines that can be written are printed as such lines. -/
theorem Captured.writable {opening : Nat} {ls : List PhysicalLine} {ms : List HeredocMarker}
    {c : Captured} (hw : ∀ m ∈ ms, HeredocMarker.isWord m.delimiter = true)
    (hls : ∀ l ∈ ls, Writable l.text) (h : of opening ls ms = .ok c) :
    ∀ t ∈ c.heredocs.flatMap Heredoc.printedLines, Writable t := by
  induction ms generalizing opening ls c with
  | nil =>
    cases h
    simp
  | cons m ms ih =>
    obtain ⟨body, terminator, rest, d, hm, hd, rfl⟩ := of_cons_eq_ok_iff.mp h
    obtain ⟨rfl, -, -⟩ := HeredocMarker.capture_eq_some_iff.mp hm
    rw [List.forall_mem_cons] at hw
    rw [List.forall_mem_append, List.forall_mem_cons] at hls
    obtain ⟨hbody, -, hrest⟩ := hls
    obtain ⟨ks, hks, hlines, -⟩ := m.printedLines_heredoc opening terminator fun l hl =>
      (hbody l hl).2
    rw [List.flatMap_cons, hlines, List.forall_mem_append, List.forall_mem_append,
      List.forall_mem_singleton]
    refine ⟨⟨?_, Encoding.writable_of_isWord hw.1⟩, ih hw.2 hrest hd⟩
    intro t ht
    obtain ⟨k, hk, rfl⟩ := List.mem_map.mp ht
    exact (hbody k (hks hk)).subset (m.content_subset k.text)

theorem LogicalLine.writable_of_readAt {escape : Char} {first : PhysicalLine}
    {ls rest : List PhysicalLine} {l : LogicalLine} (hls : ∀ k ∈ first :: ls, Writable k.text)
    (h : readAt escape first ls = .ok (l, rest)) :
    ∀ t ∈ l.text :: l.heredocs.flatMap Heredoc.printedLines, Writable t := by
  obtain ⟨c, hc, rfl, -⟩ := readAt_eq_ok_iff.mp h
  have hparts := Joined.joined_append_rest escape first.text ls
  rw [List.forall_mem_cons] at hls ⊢
  constructor
  · have hchars : ∀ c ∈ (Joined.of escape first.text ls).text.trim,
        c ∈ first.text ∨ ∃ k ∈ ls, c ∈ k.text := by
      intro c hc
      exact Joined.mem_of_mem_text ((trim_isInfix _).subset hc)
    constructor
    · intro hr
      rcases hchars _ hr with hr | ⟨k, hk, hr⟩
      · exact hls.1.1 hr
      · exact (hls.2 k hk).1 hr
    · intro hn
      rcases hchars _ hn with hn | ⟨k, hk, hn⟩
      · exact hls.1.2 hn
      · exact (hls.2 k hk).2 hn
  · refine Captured.writable isWord_of_mem_markers (fun k hk => hls.2 k ?_) hc
    rw [← hparts]
    exact List.mem_append_right _ hk

/-- The lines of a text that begins with a letter, where these can be written. -/
theorem PhysicalLine.ofLines_join {t : Text} {us : List Text} (ht : Lettered t)
    (hwritable : ∀ u ∈ t :: us, Writable u) (hlast : ∀ u ∈ us.getLast?, u ≠ []) :
    ∃ first ls, ofLines (lines (join ['\n'] (t :: us))) = first :: ls ∧ first.text = t ∧
      ls.map text = us ∧ first.number = 1 ∧
      (ls.getLast?.getD first).number = (lines (join ['\n'] (t :: us))).length := by
  obtain ⟨c, hc, halpha⟩ := ht
  have hlines : lines (join ['\n'] (t :: us)) = t :: us := by
    have hwritten :=
      Encoding.lines_body ⟨.lineFeed, false, false⟩ hwritable (List.cons_ne_nil t us) (by
      intro u hu
      cases us with
      | nil =>
        cases hu
        exact List.ne_nil_of_mem (List.mem_of_mem_head? hc)
      | cons v us => exact hlast u (by simpa using hu))
    rwa [Encoding.body, if_neg Bool.false_ne_true, List.append_nil] at hwritten
  have hdrop : (t :: us).map dropReturn = t :: us :=
    (List.map_congr_left fun u hu => Encoding.dropReturn_of_writable (hwritable u hu)).trans
      (List.map_id _)
  have hmark : c ≠ byteOrderMark := by
    rintro rfl
    exact absurd halpha (by decide)
  have htexts : (ofLines (t :: us)).map text = (t :: us).map dropReturn :=
    map_text_ofLines hmark (by rw [hdrop]; exact hc)
  rw [hdrop] at htexts
  obtain ⟨first, ls, hfile, hfirst, hls⟩ := List.map_eq_cons_iff.mp htexts
  have hnumbered : Numbered 1 (first :: ls) := by
    rw [← hfile]
    exact numbered_numberFrom 1 _
  have hlength : ls.length = us.length := by rw [← hls, List.length_map]
  rw [hlines]
  refine ⟨first, ls, hfile, hfirst, hls, hnumbered.1, ?_⟩
  rw [hnumbered.last, hlength, List.length_cons, Nat.add_comm]

/-- The last line that is printed for heredocs is a delimiter, which is not empty. -/
theorem Heredoc.getLast?_printedLines {hs : List Heredoc} (hd : ∀ h ∈ hs, h.Delimited) :
    ∀ t ∈ (hs.flatMap printedLines).getLast?, t ≠ [] := by
  rcases List.eq_nil_or_concat hs with rfl | ⟨front, h, rfl⟩
  · intro t ht
    cases ht
  · intro t ht hempty
    rw [List.concat_eq_append, List.flatMap_append, List.flatMap_singleton, printedLines,
      ← List.append_assoc, List.getLast?_concat] at ht
    cases ht
    have hword : HeredocMarker.isWord h.delimiter = true := hd h (by simp)
    rw [hempty] at hword
    exact absurd hword (by decide)

/-- A sound logical line is printed as its text and the lines of its heredocs. -/
theorem LogicalLine.Sound.print_eq {l : LogicalLine} (h : l.Sound) :
    l.text ++ heredocsText l.heredocs =
      join ['\n'] (l.text :: l.heredocs.flatMap Heredoc.printedLines) := by
  rw [← splitAll_heredocs h.text h.heredocs, splitAll_eq_splitOn, join, List.intercalate_splitOn]

/-! ## Files -/

/-- In a file whose lines can be written, so can those that a logical line is read from. -/
theorem Layout.exists_readAt_of_mem {honor : Bool} {ts : List Text} {l : LogicalLine}
    (hts : ∀ t ∈ ts, Writable t) (h : l ∈ (Layout.read honor ts).lines) :
    ∃ first ls rest, (∀ k ∈ first :: ls, Writable k.text) ∧
      LogicalLine.readAt (Layout.read honor ts).preamble.escape first ls = .ok (l, rest) := by
  rw [Layout.read, Preamble.read] at h ⊢
  rcases hr : Preamble.readOn honor {} (PhysicalLine.ofLines ts) with ⟨p, f | file⟩
  · rw [hr] at h
    cases h
  · rw [hr] at h
    obtain ⟨start, hstart, -⟩ := Preamble.readOn_idle hr
    obtain ⟨before, first, ls, rest, rfl, -, hread⟩ := LogicalLine.exists_readAt_of_mem h
    refine ⟨first, ls, rest, fun k hk => ?_, hread⟩
    have hmem : k ∈ PhysicalLine.ofLines ts := by
      rw [hstart]
      exact List.mem_append_right _ (List.mem_append_right _ hk)
    obtain ⟨t, ht, hsubset⟩ := PhysicalLine.exists_subset_of_mem hmem
    exact (hts t ht).subset hsubset

/-- **Printed heredocs are captured again.**  In a file whose lines hold neither carriage
returns nor line feeds, take a logical line with heredocs whose text does not end in the
escape character.  Its text and its printed heredocs, where the same escape character is in
force, are read as one logical line and nothing else, which has the same text and, their
places aside, the same heredocs. -/
theorem Layout.heredocs_again (honor honor' : Bool) (ts : List Text) (hts : ∀ t ∈ ts, Writable t) :
    let layout := Layout.read honor ts
    ∀ l ∈ layout.lines, l.heredocs ≠ [] → l.text.getLast? ≠ some layout.preamble.escape →
      let printed := l.text ++ heredocsText l.heredocs
      ∀ p : Preamble, p.escape = layout.preamble.escape →
        ∃ l', Layout.after (Preamble.readOn honor' p (PhysicalLine.ofLines printed.lines)) =
            ⟨p, [l'], none⟩ ∧
          l'.text = l.text ∧
          l'.heredocs.map Heredoc.unnumbered = l.heredocs.map Heredoc.unnumbered ∧
          l'.raw = printed ∧ l'.lines = .between 1 printed.lines.length := by
  intro layout l hl hne hlast printed p hp
  obtain ⟨first, ls, rest, hwritable, hread⟩ := Layout.exists_readAt_of_mem hts hl
  have hls : ∀ k ∈ ls, OneLine k.text := fun k hk => (hwritable k (List.mem_cons_of_mem _ hk)).2
  have hsound : l.Sound :=
    LogicalLine.sound_of_readAt (hwritable first List.mem_cons_self).2 hls hread
  have hletter : Lettered l.text := LogicalLine.lettered_of_heredocs hread hne
  have hprinted : printed = join ['\n'] (l.text :: l.heredocs.flatMap Heredoc.printedLines) :=
    hsound.print_eq
  obtain ⟨first', ls', hfile, hfirst', hls', hnumber, hlength⟩ := PhysicalLine.ofLines_join hletter
    (LogicalLine.writable_of_readAt hwritable hread) (Heredoc.getLast?_printedLines hsound.heredocs)
  obtain ⟨l', hread', htext, hheredocs, hraw, hlines⟩ :=
    LogicalLine.readAt_again hls hread hlast hfirst' hls'
  rw [← hprinted] at hfile hlength
  have hletter' : Lettered first'.text := by rwa [hfirst']
  refine ⟨l', ?_, htext, hheredocs, ?_, ?_⟩
  · rw [hfile, Preamble.readOn_lettered hletter', Layout.after, hp,
      LogicalLine.readAll_of_ok hletter'.not_idle hread', LogicalLine.readAll_nil]
  · rw [hraw, List.map_cons, hfirst', hls', hprinted]
  · rw [hlines, hnumber, hlength]

/-- Three heredocs of one line: the first has tabs taken off, empty lines in its body and its
delimiter in quotes, the second has one empty line and the third has none. -/
theorem Layout.heredocs_again_blank :
    let ts :=
      ["FROM scratch".toList, "RUN cat <<-'A' <<B \\ ".toList, "# c".toList, "  <<C".toList, [],
      "\t\tx".toList, " A".toList, [], "\tA".toList, [], "B".toList, "C".toList]
    let layout := Layout.read true ts
    let text : Text := "RUN cat <<-'A' <<B   <<C".toList
    let printed : Text := text ++ "\n\nx\n A\n\nA\nB\nC".toList
    ∃ l ∈ layout.lines, l.text = text ∧ text ++ heredocsText l.heredocs = printed ∧
      l.heredocs.map Heredoc.body = ["\nx\n A\n".toList, [], []] ∧
      ∀ p : Preamble, p.escape = layout.preamble.escape →
        ∃ l', Layout.after (Preamble.readOn false p (PhysicalLine.ofLines printed.lines)) =
            ⟨p, [l'], none⟩ ∧
          l'.text = text ∧ l'.heredocs.map Heredoc.unnumbered = l.heredocs.map Heredoc.unnumbered ∧
          l'.raw = printed ∧ l'.lines = .between 1 printed.lines.length := by
  intro ts layout text printed
  let l : LogicalLine := ⟨.between 2 12,
    "RUN cat <<-'A' <<B \\ \n# c\n  <<C\n\n\t\tx\n A\n\n\tA\n\nB\nC".toList, text,
    [⟨"A".toList, true, true, "\nx\n A\n".toList, .between 4 9⟩,
      ⟨"B".toList, false, false, [], .between 9 11⟩,
      ⟨"C".toList, false, false, [], .between 11 12⟩]⟩
  have hl : l ∈ layout.lines := by decide +kernel
  have hprinted : text ++ heredocsText l.heredocs = printed := by decide +kernel
  refine ⟨l, hl, rfl, hprinted, rfl, fun p hp => ?_⟩
  rw [← hprinted]
  exact heredocs_again true false ts (by decide +kernel) l hl (by decide) (by decide +kernel) p hp

end Containerfile
