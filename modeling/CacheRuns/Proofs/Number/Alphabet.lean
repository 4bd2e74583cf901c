/-
Module: CacheRuns.Proofs.Number.Alphabet
Purpose: Numbers, in the tokens from which they are read and in the texts in which they are
  shown, have no character at which a report line is cut.
Main exports: Counter.Numeral.plain, Decimal.plain_of_read?, DecimalStyle.uncut_text
-/
import CacheRuns.Number.Style
import CacheRuns.Proofs.Number.Token

namespace CacheRuns

/-! ### Counters -/

/-- A counter is a plain token. -/
theorem Counter.Numeral.plain {token : Text} {n : UInt64} (numeral : Counter.Numeral token n) :
    token.Plain := by
  obtain ⟨digits, written, nonempty, all, -⟩ := numeral
  have uncut : ∀ c ∈ digits, Text.Uncut c := fun c member =>
    Text.uncut_of_isDigit (all c member)
  rcases written with rfl | rfl
  · exact ⟨nonempty, uncut⟩
  · refine ⟨List.cons_ne_nil _ _, ?_⟩
    rw [List.forall_mem_cons]
    exact ⟨by decide, uncut⟩

/-!
### Decimal values

A token is taken apart in the way in which it is read: its digits, its point and its
exponent are no places to cut a line, and the letters of a name are not, whatever their
case.
-/

namespace Decimal

theorem uncut_of_mem_takeWhile_isDigit {t : Text} {c : Char}
    (member : c ∈ t.takeWhile Char.isDigit) : Text.Uncut c :=
  Text.uncut_of_isDigit (List.mem_takeWhile_imp member)

theorem uncut_of_isNumeral {t : Text} (numeral : Counter.isNumeral t = true) :
    ∀ c ∈ t, Text.Uncut c :=
  fun c member => Text.uncut_of_isDigit ((Counter.isNumeral_iff.mp numeral).2 c member)

theorem uncut_of_exponentDigits? {t : Text} {exponent : Int}
    (reads : exponentDigits? t = some exponent) : ∀ c ∈ t, Text.Uncut c := by
  have ofNumeral : ∀ {digits : Text} {value other : Int},
      (if Counter.isNumeral digits then some value else none) = some other →
        ∀ c ∈ digits, Text.Uncut c := by
    intro digits value other accepts
    split at accepts
    · rename_i numeral
      exact uncut_of_isNumeral numeral
    · cases accepts
  unfold exponentDigits? at reads
  split at reads
  · rw [List.forall_mem_cons]
    exact ⟨by decide, ofNumeral reads⟩
  · rw [List.forall_mem_cons]
    exact ⟨by decide, ofNumeral reads⟩
  · exact ofNumeral reads

theorem uncut_of_exponent? {t : Text} {exponent : Int} (reads : exponent? t = some exponent) :
    ∀ c ∈ t, Text.Uncut c := by
  cases t with
  | nil => simp
  | cons c t =>
      simp only [exponent?, Bool.or_eq_true, beq_iff_eq] at reads
      split at reads
      · rename_i mark
        rw [List.forall_mem_cons]
        refine ⟨?_, uncut_of_exponentDigits? reads⟩
        rcases mark with rfl | rfl <;> decide
      · cases reads

theorem uncut_of_fraction {t : Text} (behind : ∀ c ∈ (fraction t).2, Text.Uncut c) :
    ∀ c ∈ t, Text.Uncut c := by
  unfold fraction at behind
  split at behind
  · rename_i t
    rw [List.forall_mem_cons]
    refine ⟨by decide, fun c member => ?_⟩
    rw [← List.takeWhile_append_dropWhile (p := Char.isDigit) (l := t)] at member
    rcases List.mem_append.mp member with place | later
    · exact uncut_of_mem_takeWhile_isDigit place
    · exact behind c later
  · exact behind

/-- A value without its sign is read off characters that nothing cuts at. -/
theorem uncut_of_magnitude? {t : Text} {d : Decimal} (reads : magnitude? t = some d) :
    ∀ c ∈ t, Text.Uncut c := by
  simp only [magnitude?] at reads
  split at reads
  · cases reads
  obtain ⟨exponent, readsExponent, -⟩ := Option.map_eq_some_iff.mp reads
  have later := uncut_of_fraction (uncut_of_exponent? readsExponent)
  intro c member
  rw [← List.takeWhile_append_dropWhile (p := Char.isDigit) (l := t)] at member
  rcases List.mem_append.mp member with whole | behind
  · exact uncut_of_mem_takeWhile_isDigit whole
  · exact later c behind

/-- A letter is no place to cut a line, and no other character changes when its case
does. -/
theorem uncut_of_toLower {c : Char} (lower : Text.Uncut c.toLower) : Text.Uncut c := by
  unfold Char.toLower at lower
  split at lower
  · rename_i upper
    have least : 65 ≤ c.toNat := by simpa [UInt32.le_iff_toNat_le] using upper.1
    have most : c.toNat ≤ 90 := by simpa [UInt32.le_iff_toNat_le] using upper.2
    refine ⟨Text.isSpace_eq_false (by omega) (by omega), ?_, ?_⟩
    · rintro rfl
      exact absurd least (by decide)
    · rintro rfl
      exact absurd most (by decide)
  · exact lower

/-- The names of values that are no finite numbers hold no character that cuts. -/
theorem uncut_of_special? {t : Text} {x : Float} (reads : special? t = some x) :
    ∀ c ∈ t, Text.Uncut c := by
  have ofName : ∀ {name : Text}, name.Plain → (t.map Char.toLower == name) = true →
      ∀ c ∈ t, Text.Uncut c := by
    intro name plain same c member
    rw [beq_iff_eq] at same
    exact uncut_of_toLower (plain.uncut _ (same ▸ List.mem_map_of_mem member))
  simp only [special?, Bool.or_eq_true] at reads
  split at reads
  · rename_i named
    rcases named with short | long
    · exact ofName (by decide) short
    · exact ofName (by decide) long
  · split at reads
    · rename_i named
      exact ofName (by decide) named
    · cases reads

theorem uncut_of_readUnsigned? {t : Text} {x : Float} (reads : readUnsigned? t = some x) :
    ∀ c ∈ t, Text.Uncut c := by
  unfold readUnsigned? at reads
  split at reads
  · rename_i d magnitude
    exact uncut_of_magnitude? magnitude
  · exact uncut_of_special? reads

/-- A decimal value is read off a plain token. -/
theorem plain_of_read? {token : Text} {x : Float} (reads : read? token = some x) :
    token.Plain where
  nonempty := by
    rintro rfl
    rw [read?_nil] at reads
    cases reads
  uncut := by
    unfold read? at reads
    split at reads
    · rw [List.forall_mem_cons]
      exact ⟨by decide, uncut_of_readUnsigned? reads⟩
    · obtain ⟨y, unsigned, -⟩ := Option.map_eq_some_iff.mp reads
      rw [List.forall_mem_cons]
      exact ⟨by decide, uncut_of_readUnsigned? unsigned⟩
    · exact uncut_of_readUnsigned? reads

end Decimal

/-!
### Numbers as they are shown

Whatever the style, a number is shown with digits, a sign and a point, or by its name.
-/

namespace DecimalStyle

/-- The two sides of a decimal point are digits. -/
theorem isDigit_of_mem_pointed {coefficient places : Nat} {c : Char}
    (member : c ∈ (pointed coefficient places).1 ∨ c ∈ (pointed coefficient places).2) :
    c.isDigit = true := by
  have padded : c ∈ List.replicate (places + 1 - (Nat.toDigits 10 coefficient).length) '0' ++
      Nat.toDigits 10 coefficient := by
    rcases member with whole | fraction
    · exact List.mem_of_mem_take whole
    · exact List.mem_of_mem_drop fraction
  rcases List.mem_append.mp padded with zero | digit
  · rw [List.eq_of_mem_replicate zero]
    rfl
  · exact Counter.isDigit_of_mem_toDigits c digit

theorem uncut_unite {whole fraction : Text} (uncutWhole : ∀ c ∈ whole, Text.Uncut c)
    (uncutFraction : ∀ c ∈ fraction, Text.Uncut c) :
    ∀ c ∈ unite whole fraction, Text.Uncut c := by
  intro c member
  simp only [unite] at member
  split at member
  · exact uncutWhole c member
  · rcases List.mem_append.mp member with before | behind
    · exact uncutWhole c before
    · rcases List.mem_cons.mp behind with rfl | later
      · decide
      · exact uncutFraction c later

/-- A magnitude is written without a character that cuts, in every style. -/
theorem uncut_magnitudeText (style : DecimalStyle) (x : Magnitude) :
    ∀ c ∈ style.magnitudeText x, Text.Uncut c := by
  simp only [magnitudeText]
  split
  · apply uncut_unite
    · intro c member
      exact Text.uncut_of_isDigit (isDigit_of_mem_pointed (.inl member))
    · intro c member
      exact Text.uncut_of_isDigit (isDigit_of_mem_pointed (.inr member))
  · apply uncut_unite
    · intro c member
      exact Text.uncut_of_isDigit (isDigit_of_mem_pointed (.inl member))
    · intro c member
      have shown := (List.dropWhile_sublist _).subset (List.mem_reverse.mp member)
      exact Text.uncut_of_isDigit (isDigit_of_mem_pointed (.inr (List.mem_reverse.mp shown)))

theorem uncut_sign (style : DecimalStyle) (negative : Bool) :
    ∀ c ∈ style.sign negative, Text.Uncut c := by
  simp only [sign]
  split
  · exact List.forall_mem_singleton.mpr (by decide)
  · split
    · exact List.forall_mem_singleton.mpr (by decide)
    · exact List.forall_mem_nil _

/-- A report line is not cut in a number as it is shown. -/
theorem uncut_text (style : DecimalStyle) (x : Float) :
    ∀ c ∈ (style.text x).toList, Text.Uncut c := by
  have noNumber : Text.Plain "NaN".toList := by decide
  have infinity : Text.Plain "inf".toList := by decide
  rw [text, String.toList_ofList]
  split
  · exact noNumber.uncut
  · rw [List.forall_mem_append]
    exact ⟨style.uncut_sign _, infinity.uncut⟩
  · rw [List.forall_mem_append]
    exact ⟨style.uncut_sign _, style.uncut_magnitudeText _⟩

end DecimalStyle

end CacheRuns
