/-
Module: CacheRuns.Proofs.Number.Token
Purpose: Every value has a token from which it is read and that can stand in a field.
Main exports:
  Text.plain_toDigits, Decimal.exactToken, Decimal.plain_exactToken,
  Decimal.read?_exactToken
-/
import CacheRuns.Proofs.Number.Exact
import CacheRuns.Proofs.Number.Numeral
import CacheRuns.Proofs.Text.Plain

open Float.Model Float.Model.UnpackedFloat

namespace CacheRuns

namespace Text

theorem uncut_of_isDigit {c : Char} (digit : c.isDigit = true) : Uncut c := by
  refine ⟨?_, ?_, ?_⟩
  · have range := Char.isDigit_iff_toNat.mp digit
    have zero : '0'.toNat = 48 := rfl
    have nine : '9'.toNat = 57 := rfl
    exact isSpace_eq_false (by omega) (by omega)
  · rintro rfl
    cases digit
  · rintro rfl
    cases digit

/-- The digits of a counter are a plain token. -/
theorem plain_toDigits (n : Nat) : Plain (Nat.toDigits 10 n) where
  nonempty := Nat.toDigits_ne_nil
  uncut c member := uncut_of_isDigit (Counter.isDigit_of_mem_toDigits c member)

end Text

namespace Decimal

/-!
### Tokens of all decimal values

A finite number is written with all its digits.  None needs more than 1074 places
behind the point, so they are all written with that many, without a point and with an
exponent of ten.
-/

/-- The sign of a number, which is written only if it is a minus. -/
def signToken : UnpackedFloat → Text
  | .infinity .negative | .zero .negative | .finite .negative _ _ _ => ['-']
  | _ => []

/-- The name or the digits of a number, without its sign. -/
def unsignedToken : UnpackedFloat → Text
  | .notANumber => "nan".toList
  | .infinity _ => "inf".toList
  | .zero _ => "0".toList
  | .finite _ mantissa exponent _ =>
    Nat.toDigits 10 (Binary64.scaled mantissa exponent 1074) ++ "e-1074".toList

/-- A token from which the number is read. -/
def exactToken (x : Float) : Text :=
  signToken x.toModel.unpack ++ unsignedToken x.toModel.unpack

/-- A number without a sign is its own magnitude, and one with a sign is the negative
of its magnitude. -/
theorem signToken_cases (number : UnpackedFloat) :
    (signToken number = [] ∧ number.abs = number) ∨
      (signToken number = ['-'] ∧ number.abs.neg = number) := by
  cases number with
  | notANumber => exact .inl ⟨rfl, rfl⟩
  | infinity sign =>
      cases sign
      · exact .inr ⟨rfl, rfl⟩
      · exact .inl ⟨rfl, rfl⟩
  | zero sign =>
      cases sign
      · exact .inr ⟨rfl, rfl⟩
      · exact .inl ⟨rfl, rfl⟩
  | finite sign mantissa exponent positive =>
      cases sign
      · exact .inr ⟨rfl, rfl⟩
      · exact .inl ⟨rfl, rfl⟩

/-- A written value without its sign is a plain token. -/
theorem plain_unsignedToken (number : UnpackedFloat) : Text.Plain (unsignedToken number) := by
  cases number with
  | notANumber =>
      show Text.Plain "nan".toList
      decide
  | infinity sign =>
      show Text.Plain "inf".toList
      decide
  | zero sign =>
      show Text.Plain "0".toList
      decide
  | finite sign mantissa exponent positive =>
      have digits := Text.plain_toDigits (Binary64.scaled mantissa exponent 1074)
      refine ⟨List.append_ne_nil_of_left_ne_nil digits.nonempty _, fun c member => ?_⟩
      rcases List.mem_append.mp member with digit | tail
      · exact digits.uncut c digit
      · have plainTail : Text.Plain "e-1074".toList := by decide
        exact plainTail.uncut c tail

/-- A value that is written exactly is one plain token. -/
theorem plain_exactToken (x : Float) : Text.Plain (exactToken x) := by
  have unsigned := plain_unsignedToken x.toModel.unpack
  refine ⟨List.append_ne_nil_of_right_ne_nil _ unsigned.nonempty, fun c member => ?_⟩
  rcases List.mem_append.mp member with sign | rest
  · rcases signToken_cases x.toModel.unpack with ⟨noSign, -⟩ | ⟨minus, -⟩
    · rw [noSign] at sign
      cases sign
    · rw [minus, List.mem_singleton] at sign
      subst sign
      decide
  · exact unsigned.uncut c rest

/-- Digits in the smallest unit are read as so many units. -/
theorem magnitude?_digits {digits : Text} (nonempty : digits ≠ [])
    (all : ∀ c ∈ digits, c.isDigit = true) :
    magnitude? (digits ++ "e-1074".toList) = some ⟨Counter.valueOf digits, -1074⟩ := by
  have taken : (digits ++ "e-1074".toList).takeWhile Char.isDigit = digits := by
    rw [List.takeWhile_append_of_pos all]
    simp
  have dropped : (digits ++ "e-1074".toList).dropWhile Char.isDigit = "e-1074".toList := by
    rw [List.dropWhile_append_of_pos all]
    rfl
  have noPoint : fraction "e-1074".toList = ([], "e-1074".toList) := rfl
  have power : exponent? "e-1074".toList = some (-1074) := by decide
  have shown : digits.isEmpty = false := by simpa using nonempty
  simp only [magnitude?, taken, dropped, noPoint, power, shown]
  simp

/-- The units of a stored number are read back as the number. -/
theorem readUnsigned?_digits {mantissa : Nat} {exponent : Int}
    (stored : Binary64.Stored mantissa exponent) (positive : 0 < mantissa) :
    readUnsigned? (Nat.toDigits 10 (Binary64.scaled mantissa exponent 1074) ++
        "e-1074".toList) =
      some (.ofModel (.pack (.finite .positive mantissa exponent positive))) := by
  have least := stored.least_le
  have value : Counter.valueOf (Nat.toDigits 10 (Binary64.scaled mantissa exponent 1074)) =
      Binary64.scaled mantissa exponent 1074 := by
    rw [Counter.valueOf_eq_ofDigitChars, Nat.ofDigitChars_ten_toDigits]
  rw [readUnsigned?, magnitude?_digits Nat.toDigits_ne_nil Counter.isDigit_of_mem_toDigits, value]
  exact congrArg some (nearestFloat_exact stored positive (by omega) (by decide) (by decide))

/-- What is written without a sign is read back as the magnitude. -/
theorem readUnsigned?_unsignedToken (model : Float.Model) :
    readUnsigned? (unsignedToken model.unpack) = some (.ofModel (.pack model.unpack.abs)) := by
  cases parts : model.unpack with
  | notANumber => decide
  | infinity sign =>
      show readUnsigned? "inf".toList = some (.ofModel (.pack (.infinity .positive)))
      decide
  | zero sign =>
      show readUnsigned? "0".toList = some (.ofModel (.pack (.zero .positive)))
      decide
  | finite sign mantissa exponent positive =>
      exact readUnsigned?_digits (Binary64.stored_of_unpack parts) positive

/-- Nothing is lost when the magnitude of a number is stored. -/
theorem unpack_pack_abs (model : Float.Model) :
    (Float.Model.pack model.unpack.abs).unpack = model.unpack.abs := by
  cases parts : model.unpack with
  | notANumber => exact unpack_packedNaN
  | infinity sign => exact Binary64.unpack_packedInfinity .positive
  | zero sign => exact unpack_packedZero
  | finite sign mantissa exponent positive =>
      exact (Binary64.stored_of_unpack parts).unpack_pack .positive positive

theorem read?_of_no_sign {token : Text} (noPlus : token.head? ≠ some '+')
    (noMinus : token.head? ≠ some '-') : read? token = readUnsigned? token := by
  unfold read?
  split
  · exact absurd rfl noPlus
  · exact absurd rfl noMinus
  · rfl

theorem head?_unsignedToken_ne (number : UnpackedFloat) {c : Char} (sign : c = '+' ∨ c = '-') :
    (unsignedToken number).head? ≠ some c := by
  cases number with
  | notANumber => rcases sign with rfl | rfl <;> simp [unsignedToken]
  | infinity => rcases sign with rfl | rfl <;> simp [unsignedToken]
  | zero => rcases sign with rfl | rfl <;> simp [unsignedToken]
  | finite _ mantissa exponent =>
      intro first
      have member : c ∈ Nat.toDigits 10 (Binary64.scaled mantissa exponent 1074) := by
        cases digits : Nat.toDigits 10 (Binary64.scaled mantissa exponent 1074) with
        | nil => exact absurd digits Nat.toDigits_ne_nil
        | cons d rest => simp_all [unsignedToken]
      have digit := Counter.isDigit_of_mem_toDigits c member
      rcases sign with rfl | rfl <;> cases digit

/-- Every number is read from its token. -/
theorem read?_exactToken (x : Float) : read? (exactToken x) = some x := by
  have shown : x = .ofModel (.pack x.toModel.unpack) := by rw [Binary64.pack_unpack]
  have reads := readUnsigned?_unsignedToken x.toModel
  have stays := unpack_pack_abs x.toModel
  rw [exactToken]
  rcases signToken_cases x.toModel.unpack with ⟨sign, same⟩ | ⟨sign, same⟩
  · have noPlus := head?_unsignedToken_ne x.toModel.unpack (.inl rfl)
    have noMinus := head?_unsignedToken_ne x.toModel.unpack (.inr rfl)
    rw [sign, List.nil_append, read?_of_no_sign noPlus noMinus, reads, same, ← shown]
  · rw [sign]
    show (readUnsigned? (unsignedToken x.toModel.unpack)).map (fun y => -y) = some x
    rw [reads]
    show some (Float.ofModel (.pack (Float.Model.pack x.toModel.unpack.abs).unpack.neg)) = some x
    rw [stays, same, ← shown]

end Decimal

end CacheRuns
