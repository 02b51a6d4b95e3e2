import Containerfile.Grammar.Command
import Containerfile.Proofs.Formats
import Containerfile.Proofs.Grammar.Basic
import Containerfile.Proofs.Instruction.Lines
import Containerfile.Proofs.Text.Numeral

/-! # Durations that are written are read

A duration is written as one number with a unit, and a number must fit 64 bits when it is read.
Whole seconds always do, since they did when the duration was read (`Duration.seconds_le_of_read`).
A duration with a rest of less than a second is written in milliseconds or nanoseconds, and both are
counted in nanoseconds when they are read.  So such a duration is read back exactly if all of it
fits 64 bits as nanoseconds, which it may not: the seconds and the rest may have been written apart.

This holds of every format of durations (`DurationFormat.read_render`), and the reader in use is one
(`Duration.format`).

Main statement: `Grammar.duration_readsBack_iff`. -/
namespace Containerfile

namespace Duration

variable {d e : Duration} {f : Fraction} {fraction : Option Fraction} {w : Worth}
  {size fuel count seconds nanos n m : Nat} {t name : Text} {c : Char}

/-! ## What is read -/

theorem bounded_of_le (h : n ≤ Numeral.greatest64) : bounded n = .ok n := if_pos h

theorem bounded_of_lt (h : Numeral.greatest64 < n) : bounded n = .error .tooLarge :=
  if_neg (by omega)

theorem le_of_bounded (h : bounded n = .ok m) : m ≤ Numeral.greatest64 ∧ m = n := by
  rw [bounded] at h
  split at h
  · rename_i hle
    cases h
    exact ⟨hle, rfl⟩
  · cases h

theorem seconds_le_of_plus (h : d.plus seconds nanos = .ok e) : e.seconds ≤ Numeral.greatest64 := by
  obtain ⟨rest, -, h⟩ := Grammar.of_bind_eq_ok h
  obtain ⟨whole, hwhole, h⟩ := Grammar.of_bind_eq_ok h
  cases h
  obtain ⟨hle, rfl⟩ := le_of_bounded hwhole
  exact hle

theorem seconds_le_of_plusWhole (h : d.plusWhole count w = .ok e) :
    e.seconds ≤ Numeral.greatest64 := by
  cases w with
  | nanos n =>
    obtain ⟨_, -, h⟩ := Grammar.of_bind_eq_ok h
    exact seconds_le_of_plus h
  | seconds n =>
    obtain ⟨_, -, h⟩ := Grammar.of_bind_eq_ok h
    exact seconds_le_of_plus h

theorem seconds_le_of_plusFraction {w : Option Worth} (h : d.plusFraction f w = .ok e) :
    e.seconds ≤ Numeral.greatest64 := by
  match w with
  | none => cases h
  | some (.nanos n) =>
    obtain ⟨_, -, h⟩ := Grammar.of_bind_eq_ok h
    exact seconds_le_of_plus h
  | some (.seconds n) =>
    obtain ⟨_, -, h⟩ := Grammar.of_bind_eq_ok h
    exact seconds_le_of_plus h

theorem seconds_le_of_plusGroup (h : d.plusGroup count fraction name = .ok e) :
    e.seconds ≤ Numeral.greatest64 := by
  rw [plusGroup] at h
  split at h
  · cases h
  · obtain ⟨whole, hwhole, h⟩ := Grammar.of_bind_eq_ok h
    split at h
    · cases h
      exact seconds_le_of_plusWhole hwhole
    · exact seconds_le_of_plusFraction h

/-- Groups are added to a duration whose seconds fit, and so they go on fitting. -/
theorem seconds_le_of_readGroups (hd : d.seconds ≤ Numeral.greatest64)
    (h : readGroups size fuel d count t = .ok e) : e.seconds ≤ Numeral.greatest64 := by
  induction fuel generalizing d count t with
  | zero =>
    cases h
    exact hd
  | succ fuel ih =>
    obtain ⟨⟨n, fraction, u⟩, -, h⟩ := Grammar.of_bind_eq_ok h
    dsimp only at h
    split at h
    · exact seconds_le_of_plusGroup h
    · split at h
      · obtain ⟨d', hd', h⟩ := Grammar.of_bind_eq_ok h
        exact ih (seconds_le_of_plusGroup hd') h
      · split at h
        · obtain ⟨d', hd', h⟩ := Grammar.of_bind_eq_ok h
          obtain ⟨next, -, h⟩ := Grammar.of_bind_eq_ok h
          cases next with
          | none =>
            cases h
            exact seconds_le_of_plusGroup hd'
          | some p => exact ih (seconds_le_of_plusGroup hd') h
        · cases h

/-- **The seconds of a duration that is read fit 64 bits.** -/
theorem seconds_le_of_read (h : read t = .ok d) : d.seconds ≤ Numeral.greatest64 := by
  rw [read] at h
  split at h
  · cases h
    exact Nat.zero_le _
  · obtain ⟨first, -, h⟩ := Grammar.of_bind_eq_ok h
    cases first with
    | none => cases h
    | some p => exact seconds_le_of_readGroups (Nat.zero_le _) h

/-! ## One number with a unit -/

theorem isDigit_of_isUnitLetter (h : isUnitLetter c = true) : c.isDigit = false := by
  rcases (Bool.or_eq_true _ _).mp h with halpha | hmicro
  · exact Numeral.isDigit_of_isAlpha halpha
  · rw [beq_iff_eq.mp hmicro]
    decide

theorem isBlank_of_isUnitLetter (h : isUnitLetter c = true) : isBlank c = false := by
  rcases (Bool.or_eq_true _ _).mp h with halpha | hmicro
  · exact Text.isBlank_of_isAlpha halpha
  · rw [beq_iff_eq.mp hmicro]
    decide

theorem isBlank_of_isDigit (h : c.isDigit = true) : isBlank c = false :=
  Reference.isBlank_of_isNameChar (Reference.isNameChar_of_isDigit h)

/-- Digits are read up to a unit, if they fit. -/
theorem readCount_append (ht : ∀ c ∈ t, c.isDigit = true)
    (hname : ∀ c ∈ name.head?, isUnitLetter c = true) (hcount : count ≤ Numeral.greatest64) :
    readCount size count (t ++ name) =
      (bounded (Nat.ofDigitChars 10 t count)).map fun n => (n, none, name) := by
  induction t generalizing count with
  | nil =>
    rw [Nat.ofDigitChars_nil, bounded_of_le hcount, List.nil_append]
    cases name with
    | nil => rfl
    | cons c name =>
      have hc : isUnitLetter c = true := hname c rfl
      rw [readCount, isDigit_of_isUnitLetter hc, isBlank_of_isUnitLetter hc, hc]
      rfl
  | cons c t ih =>
    rw [List.forall_mem_cons] at ht
    have hnext : count * 10 + digitValue c = 10 * count + (c.toNat - '0'.toNat) := by
      rw [digitValue]
      omega
    rw [List.cons_append, readCount, if_pos ht.1, Nat.ofDigitChars_cons, hnext]
    by_cases hfits : 10 * count + (c.toNat - '0'.toNat) ≤ Numeral.greatest64
    · rw [bounded_of_le hfits]
      exact ih ht.2 hfits
    · -- more digits make the number no smaller
      have hgrows := Numeral.le_ofDigitChars (10 * count + (c.toNat - '0'.toNat)) t
      rw [bounded_of_lt (by omega), bounded_of_lt (by omega)]
      rfl

/-- The last group, whose number starts with `count`. -/
theorem readGroups_append (ht : ∀ c ∈ t, c.isDigit = true)
    (hname : ∀ c ∈ name, isUnitLetter c = true) (hcount : count ≤ Numeral.greatest64) :
    readGroups size (fuel + 1) d count (t ++ name) =
      bounded (Nat.ofDigitChars 10 t count) >>= fun n => d.plusGroup n none name := by
  have hhead : ∀ c ∈ name.head?, isUnitLetter c = true := fun c hc =>
    hname c (List.mem_of_mem_head? hc)
  rw [readGroups, readCount_append ht hhead hcount]
  cases bounded (Nat.ofDigitChars 10 t count) with
  | error fault => rfl
  | ok n =>
    simp [Except.map, bind, Except.bind, List.takeWhile_eq_self_iff.mpr hname,
      List.dropWhile_eq_nil_iff.mpr hname]

/-- **A number with a unit is read as one group.** -/
theorem read_append (n : Nat) (hne : name ≠ []) (hname : name.all isUnitLetter = true) :
    read (Nat.toDigits 10 n ++ name) = bounded n >>= fun n => zero.plusGroup n none name := by
  have hdigits : ∀ c ∈ Nat.toDigits 10 n, c.isDigit = true := fun c hc =>
    Nat.isDigit_of_mem_toDigits (by decide) (by decide) hc
  have hvalue : Nat.ofDigitChars 10 (Nat.toDigits 10 n) 0 = n := Nat.ofDigitChars_ten_toDigits
  obtain ⟨c, t, ht⟩ := List.exists_cons_of_ne_nil (Nat.toDigits_ne_nil (b := 10) (n := n))
  rw [ht, List.forall_mem_cons] at hdigits
  rw [ht, Nat.ofDigitChars_cons, Nat.mul_zero, Nat.zero_add] at hvalue
  obtain ⟨hc, hrest⟩ := hdigits
  have hsmall : digitValue c ≤ Numeral.greatest64 := by
    obtain ⟨-, h9⟩ := Char.isDigit_iff_toNat.mp hc
    exact Nat.le_trans (Nat.sub_le _ _) (Nat.le_trans h9 (by decide))
  have hfound : firstDigit (Text.byteSize (c :: t ++ name)) (c :: t ++ name) =
      .ok (some (digitValue c, t ++ name)) := by
    rw [firstDigit, List.cons_append,
      List.dropWhile_cons_of_neg (by rw [isBlank_of_isDigit hc]; exact Bool.false_ne_true)]
    exact if_pos hc
  have hunit : c :: t ++ name ≠ ['0'] := by
    intro h
    exact hne (List.append_eq_nil_iff.mp (List.cons.inj h).2).2
  rw [ht, read, if_neg hunit, hfound, ← hvalue]
  exact readGroups_append hrest (List.all_eq_true.mp hname) hsmall

/-! ## Counts of a unit -/

theorem plusGroup_seconds (h : n ≤ Numeral.greatest64) :
    zero.plusGroup n none ['s'] = .ok (ofParts n 0) := by
  have hunit : unit? ['s'] = some ⟨["seconds", "second", "secs", "sec", "s"], .seconds 1,
    some (.nanos 1000000000)⟩ := rfl
  rw [plusGroup, hunit]
  simp [plusWhole, plus, ofParts, zero, bounded_of_le, h, bind, Except.bind, pure, Except.pure]

/-- A count of seconds is read if it fits. -/
theorem read_seconds (h : n ≤ Numeral.greatest64) :
    read (Nat.toDigits 10 n ++ ['s']) = .ok (ofParts n 0) := by
  rw [read_append n (List.cons_ne_nil _ _) rfl, bounded_of_le h]
  exact plusGroup_seconds h

/-- A count of a unit below the second is a duration if it fits 64 bits as nanoseconds. -/
theorem plusGroup_nanos {u : TimeUnit} (hu : unit? name = some u) (hw : u.worth = .nanos m) :
    zero.plusGroup n none name = (bounded (n * m)).map (ofParts 0) := by
  rw [plusGroup, hu]
  simp only [hw, plusWhole]
  by_cases hfits : n * m ≤ Numeral.greatest64
  · have hseconds : n * m / 1000000000 ≤ Numeral.greatest64 :=
      Nat.le_trans (Nat.div_le_self _ _) hfits
    simp [plus, ofParts, zero, bounded_of_le, hfits, hseconds, bind, Except.bind, pure, Except.pure,
      Except.map]
  · rw [bounded_of_lt (by omega)]
    rfl

/-- A count of a unit below the second is read if it fits 64 bits as nanoseconds. -/
theorem read_count {u : TimeUnit} (hu : unit? name = some u) (hw : u.worth = .nanos m) (hm : 0 < m)
    (hne : name ≠ []) (hname : name.all isUnitLetter = true) (n : Nat) :
    read (Nat.toDigits 10 n ++ name) =
      if n * m ≤ Numeral.greatest64 then .ok (ofParts 0 (n * m)) else .error .tooLarge := by
  have hle : n ≤ n * m := Nat.le_mul_of_pos_right n hm
  rw [read_append n hne hname]
  by_cases hfits : n * m ≤ Numeral.greatest64
  · rw [bounded_of_le (Nat.le_trans hle hfits), if_pos hfits]
    show zero.plusGroup n none name = .ok (ofParts 0 (n * m))
    rw [plusGroup_nanos hu hw, bounded_of_le hfits, Except.map]
  · rw [if_neg hfits]
    -- the number itself may be too large, or only what it comes to
    by_cases hcount : n ≤ Numeral.greatest64
    · rw [bounded_of_le hcount]
      show zero.plusGroup n none name = .error .tooLarge
      rw [plusGroup_nanos hu hw, bounded_of_lt (by omega), Except.map]
    · rw [bounded_of_lt (by omega)]
      rfl

/-- **Durations as they are read.** -/
def format : DurationFormat where
  read := read
  seconds_le := seconds_le_of_read
  read_seconds := read_seconds
  read_millis n :=
    read_count (u := ⟨["millis", "msec", "ms"], .nanos 1000000, some (.nanos 1000000)⟩) rfl rfl
      (by decide) (List.cons_ne_nil _ _) rfl n
  read_nanos n := by
    have hread : read (Nat.toDigits 10 n ++ ['n', 's']) =
        if n * 1 ≤ Numeral.greatest64 then .ok (ofParts 0 (n * 1)) else .error .tooLarge :=
      read_count (u := ⟨["nanos", "nsec", "ns"], .nanos 1, none⟩) rfl rfl (by decide)
        (List.cons_ne_nil _ _) rfl n
    rwa [Nat.mul_one] at hread

/-! ## What is written -/

theorem ofParts_seconds (h : d.nanos = 0) : ofParts d.seconds 0 = d := by
  obtain ⟨seconds, nanos, hlt⟩ := d
  cases h
  rfl

theorem ofParts_totalNanos (d : Duration) : ofParts 0 d.totalNanos = d := by
  obtain ⟨seconds, nanos, hlt⟩ := d
  simp only [ofParts, totalNanos, mk.injEq]
  omega

end Duration

namespace DurationFormat

variable (F : DurationFormat) {d : Duration} {t : Text}

/-- **What is written is read back** if it is whole seconds, or fits 64 bits as nanoseconds;
otherwise it is too large. -/
theorem read_render (h : d.seconds ≤ Numeral.greatest64) :
    F.read d.render =
      if d.nanos = 0 ∨ d.totalNanos ≤ Numeral.greatest64 then .ok d else .error .tooLarge := by
  rw [Duration.render]
  by_cases hwhole : d.nanos = 0
  · rw [if_pos hwhole, if_pos (.inl hwhole), F.read_seconds h, Duration.ofParts_seconds hwhole]
  · simp only [hwhole, if_false, false_or]
    split
    · rename_i hmillis
      have htotal : d.totalNanos / 1000000 * 1000000 = d.totalNanos := by
        rw [Duration.totalNanos]
        omega
      rw [F.read_millis, htotal, Duration.ofParts_totalNanos]
    · rw [F.read_nanos, Duration.ofParts_totalNanos]

/-- Which of the durations that are read are read back. -/
theorem readsBack_iff (h : F.read t = .ok d) :
    (F.read d.render = .ok d ↔ d.nanos = 0 ∨ d.totalNanos ≤ Numeral.greatest64) ∧
      (F.read d.render ≠ .ok d → F.read d.render = .error .tooLarge) := by
  rw [F.read_render (F.seconds_le h)]
  split
  · rename_i hback
    exact ⟨iff_of_true rfl hback, fun hne => absurd rfl hne⟩
  · rename_i hback
    exact ⟨iff_of_false (by simp) hback, fun _ => rfl⟩

end DurationFormat

namespace Grammar

variable {s : Statement} {name : String} {cx : Context} {d : Duration}

/-- A duration that a flag gives was read from a text. -/
theorem read_of_duration (h : (duration s name cx).result = .ok (some d)) :
    ∃ t, Duration.read t = .ok d := by
  obtain ⟨value, -, h⟩ := ok_of_bind h
  cases value with
  | none => cases h
  | some t =>
    refine ⟨t, ?_⟩
    cases hread : Duration.read t with
    | error fault =>
      simp only [hread] at h
      cases h
    | ok e =>
      simp only [hread] at h
      cases h
      rfl

/-- **Which durations are read back.**  Of the durations that a flag of HEALTHCHECK gives, those are
read back from their text that are whole seconds, or that fit 64 bits as nanoseconds.  The others
are written with a number that is too large. -/
theorem duration_readsBack_iff (h : (duration s name cx).result = .ok (some d)) :
    (Duration.read d.render = .ok d ↔ d.nanos = 0 ∨ d.totalNanos ≤ Numeral.greatest64) ∧
      (Duration.read d.render ≠ .ok d → Duration.read d.render = .error .tooLarge) := by
  obtain ⟨t, ht⟩ := read_of_duration h
  exact Duration.format.readsBack_iff ht

/-- A health check with a given interval. -/
def withInterval (t : Text) : Statement :=
  { keyword := .healthcheck
    rawArgs := "--interval=".toList ++ t ++ " CMD true".toList
    flags := [⟨"interval".toList, some t⟩]
    args := .text "CMD true".toList
    lines := .single 2
    heredocs := [] }

/-- The largest duration below the second's unit is read back; six hundred years and a millisecond
are not. -/
theorem duration_readsBack_iff_years :
    let cx : Context := ⟨'\\', none, [none], false⟩
    let years : Duration := ⟨18934560000, 1000000, by decide⟩
    let largest : Duration := ⟨18446744073, 709551615, by decide⟩
    (duration (withInterval "600years1ms".toList) "interval" cx).result = .ok (some years) ∧
      years.render = "18934560000001ms".toList ∧ Duration.read years.render = .error .tooLarge ∧
      (duration (withInterval "18446744073s709551615ns".toList) "interval" cx).result =
        .ok (some largest) ∧
      Duration.read largest.render = .ok largest := by
  intro cx years largest
  have hyears : (duration (withInterval "600years1ms".toList) "interval" cx).result =
      .ok (some years) := by
    decide +kernel
  have hlargest : (duration (withInterval "18446744073s709551615ns".toList) "interval" cx).result =
      .ok (some largest) := by
    decide +kernel
  obtain ⟨hback, hlost⟩ := duration_readsBack_iff hyears
  refine ⟨hyears, by decide +kernel, hlost fun hread => ?_, hlargest,
    (duration_readsBack_iff hlargest).1.mpr (.inr (by decide))⟩
  exact absurd (hback.mp hread) (by decide)

end Grammar

end Containerfile
