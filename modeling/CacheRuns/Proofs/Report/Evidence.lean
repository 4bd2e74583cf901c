/-
Module: CacheRuns.Proofs.Report.Evidence
Purpose: What the error of a line shows is found in the line, and is what the error
  says it is.
Main exports:
  LineError.Tells, LineError.quoted?, Text.HasField, Segment.EndsField,
  Segment.Failure.tells, Segment.Failure.hasField, Report.readLine_error_tells
-/
import CacheRuns.Proofs.Report.Precedence
import CacheRuns.Proofs.Report.SegmentFailure
import CacheRuns.Proofs.Text.Plain

namespace CacheRuns

/-- The error quotes no more than what stands in the text, and what it quotes is not
empty and of the kind it is said to be. -/
inductive LineError.Tells (t : Text) : LineError → Prop where
  | malformedField {field : ReportField} {word : Text} (occurs : word <:+: t)
      (nonempty : word ≠ []) (solid : word.Solid) :
      LineError.Tells t (.malformedField field (String.ofList word))
  | missingField (field : ReportField) : LineError.Tells t (.missingField field)
  | trailing {rest : Text} (occurs : rest <:+: t) (nonempty : rest ≠ [])
      (starts : ∀ c ∈ rest.head?, Text.isSpace c = false)
      (ends : ∀ c ∈ rest.getLast?, Text.isSpace c = false) :
      LineError.Tells t (.trailing (String.ofList rest))
  | unknownPolicy {name : Text} (occurs : name <:+: t) (nonempty : name ≠ [])
      (solid : name.Solid) (unregistered : ∀ kind : PolicyKind, kind.name.toList ≠ name) :
      LineError.Tells t (.unknownPolicy (String.ofList name))
  | policyCount {found : Nat} (notTwo : found ≠ 2) : LineError.Tells t (.policyCount found)
  | unknownSegment {keyword : Text} (occurs : keyword <:+: t) (nonempty : keyword ≠ [])
      (notHeader : keyword ≠ reportKeyword.toList) (notRatios : keyword ≠ ratiosKeyword.toList)
      (notCache : keyword ≠ cacheKeyword.toList) :
      LineError.Tells t (.unknownSegment (String.ofList keyword))
  | emptySegment : LineError.Tells t .emptySegment
  | missingGlobal : LineError.Tells t .missingGlobal
  | duplicateGlobal : LineError.Tells t .duplicateGlobal
  | misplacedHeader : LineError.Tells t .misplacedHeader

/-- The text that an error quotes. -/
def LineError.quoted? : LineError → Option String
  | .malformedField _ word => some word
  | .trailing rest => some rest
  | .unknownPolicy name => some name
  | .unknownSegment keyword => some keyword
  | _ => none

/-- What an error tells of a part of a text it tells of the whole text. -/
theorem LineError.Tells.of_isInfix {s t : Text} {error : LineError} (inside : s <:+: t)
    (tells : error.Tells s) : error.Tells t := by
  cases tells with
  | malformedField occurs nonempty solid =>
      exact .malformedField (occurs.trans inside) nonempty solid
  | missingField field => exact .missingField field
  | trailing occurs nonempty starts ends =>
      exact .trailing (occurs.trans inside) nonempty starts ends
  | unknownPolicy occurs nonempty solid unregistered =>
      exact .unknownPolicy (occurs.trans inside) nonempty solid unregistered
  | policyCount notTwo => exact .policyCount notTwo
  | unknownSegment occurs nonempty notHeader notRatios notCache =>
      exact .unknownSegment (occurs.trans inside) nonempty notHeader notRatios notCache
  | emptySegment => exact .emptySegment
  | missingGlobal => exact .missingGlobal
  | duplicateGlobal => exact .duplicateGlobal
  | misplacedHeader => exact .misplacedHeader

theorem LineError.Tells.quoted_isInfix {t : Text} {error : LineError} (tells : error.Tells t)
    {quoted : String} (quotes : quoted ∈ error.quoted?) : quoted.toList <:+: t := by
  cases tells with
  | malformedField occurs | trailing occurs | unknownPolicy occurs | unknownSegment occurs =>
      cases quotes
      rwa [String.toList_ofList]
  | missingField | policyCount | emptySegment | missingGlobal | duplicateGlobal
  | misplacedHeader => cases quotes

/-! ### Parts of a text -/

namespace Text

theorem IsFirstWord.isInfix {t word : Text} (first : t.IsFirstWord word) : word <:+: t := by
  obtain ⟨before, after, rfl, -, -⟩ := first.cut
  exact ⟨before, after, by simp⟩

theorem TrimmedTo.ne_nil {t core : Text} (trimmed : TrimmedTo t core) (solid : ¬ t.Blank) :
    core ≠ [] := by
  rintro rfl
  obtain ⟨before, after, blankBefore, blankAfter, rfl⟩ := trimmed.cut
  refine solid fun c member => ?_
  rw [List.append_nil, List.mem_append] at member
  exact member.elim (blankBefore c) (blankAfter c)

/-- Behind the first word of a trimmed text, too, no white space is left at the end. -/
theorem getLast?_afterWord_trim (t : Text) :
    ∀ c ∈ (afterWord (trim t)).getLast?, isSpace c = false := by
  intro c last
  apply (trimmedTo_trim t).ends
  rw [← headWord_append_afterWord (trim t), Option.mem_def, List.getLast?_append, last]
  rfl

/-- Behind what follows the first word of a trimmed text there is only white space. -/
theorem exists_cut_afterWord_trim (t : Text) :
    ∃ before after, Blank after ∧ t = before ++ (afterWord (trim t) ++ after) := by
  obtain ⟨before, after, -, blankAfter, cut⟩ := (trimmedTo_trim t).cut
  refine ⟨before ++ headWord (trim t), after, blankAfter, ?_⟩
  rw [← List.append_assoc, List.append_assoc before, headWord_append_afterWord]
  exact cut

theorem headWord_trim_isInfix (t : Text) : headWord (trim t) <:+: t :=
  ((List.takeWhile_prefix _).isInfix).trans (trimmedTo_trim t).isInfix

theorem afterWord_trim_isInfix (t : Text) : afterWord (trim t) <:+: t :=
  ((List.dropWhile_suffix _).isInfix).trans (trimmedTo_trim t).isInfix

end Text

/-! ### What the errors of fields, policies and segments tell -/

section

variable {fields : List ReportField} {t : Text} {error : LineError}

/-- What a failing field has left is an end of the text. -/
theorem ReportField.Fails.suffix {field : ReportField} {shown : Text}
    (fails : field.Fails t shown) : shown <:+ t := by
  cases fails with
  | unseparated => exact List.suffix_rfl
  | ended => exact List.nil_suffix
  | unwritten => exact List.suffix_append _ _

/-- Where fields stop, an end of the text is left. -/
theorem StopsAt.suffix {place : Nat} {field : ReportField} {shown : Text}
    (stops : StopsAt fields t place field shown) : shown <:+ t := by
  obtain ⟨written, values, behind, rfl, -, -, -, fails⟩ := stops
  exact fails.suffix.trans (List.suffix_append written behind)

/-- An error of fields tells something of their text. -/
theorem FieldsOutcome.tells (outcome : FieldsOutcome fields t (.error error)) :
    error.Tells t := by
  cases outcome with
  | missing => exact .missingField _
  | malformed stops first =>
      exact .malformedField (first.isInfix.trans stops.suffix.isInfix) first.nonempty first.solid

/-- What is left behind the fields of a text that does not end with white space does not
vanish when it is trimmed. -/
theorem LayoutOutcome.tells (ends : ∀ c ∈ t.getLast?, Text.isSpace c = false)
    (outcome : LayoutOutcome fields t (.error error)) : error.Tells t := by
  cases outcome with
  | failed stops => exact stops.tells
  | @trailing values rest core all left trimmed =>
      have behind : rest <:+ t := by
        cases all with
        | @read written _ _ cut => exact cut ▸ List.suffix_append written rest
      have notBlank : ¬ rest.Blank := by
        intro blank
        obtain ⟨before, rfl⟩ := behind
        have last := List.getLast?_eq_getLast_of_ne_nil left
        have space := blank _ (List.getLast_mem left)
        rw [ends _ (by rw [List.getLast?_append, last]; rfl)] at space
        cases space
      exact .trailing (trimmed.isInfix.trans behind.isInfix) (trimmed.ne_nil notBlank)
        trimmed.starts trimmed.ends

/-- An error of a policy tells something of its text. -/
theorem Policy.Failure.tells (fails : Policy.Failure t error) : error.Tells t := by
  cases fails with
  | nothing => exact .emptySegment
  | @unnamed name head nonempty unknown =>
      subst head
      refine .unknownPolicy (Text.headWord_trim_isInfix t) nonempty
        (fun c => Text.isSpace_of_mem_headWord) fun kind same => ?_
      rw [← same, PolicyKind.ofName?_name] at unknown
      cases unknown
  | fields head stops =>
      exact (stops.tells (Text.getLast?_afterWord_trim t)).of_isInfix
        (Text.afterWord_trim_isInfix t)

/-- The text of a policy is a piece of what follows the keyword of a cache, or the end of
the first piece. -/
theorem CacheStats.exists_cut_of_mem_policyTexts {leftover text : Text}
    {values : Values CacheStats.fields}
    (counters : FieldsOutcome CacheStats.fields (Text.pieces ':' t).1 (.ok (values, leftover)))
    (member : text ∈ CacheStats.policyTexts leftover (Text.pieces ':' t).2) :
    ':' ∉ text ∧ ∃ before after, t = before ++ (text ++ after) ∧ ∀ c ∈ after.head?, c = ':' := by
  have either : text = leftover ∨ text ∈ (Text.pieces ':' t).2 := by
    rw [CacheStats.policyTexts] at member
    split at member
    · exact .inr member
    · exact List.mem_cons.mp member
  rcases either with rfl | behind
  · have first : (Text.pieces ':' t).1 ∈ Text.pieceList ':' t := List.mem_cons_self
    have noColon := Text.not_mem_of_mem_pieceList first
    obtain ⟨before, after, shape, closes⟩ := Text.exists_cut_of_mem_pieceList first
    cases counters with
    | @read written _ _ cut =>
        rw [cut] at noColon shape
        refine ⟨fun colon => noColon (List.mem_append_right _ colon), before ++ written, after, ?_,
          closes⟩
        rw [shape]
        simp
  · have piece : text ∈ Text.pieceList ':' t := List.mem_cons_of_mem _ behind
    exact ⟨Text.not_mem_of_mem_pieceList piece, Text.exists_cut_of_mem_pieceList piece⟩

/-- An error of a cache tells something of its text. -/
theorem CacheStats.Failure.tells (fails : CacheStats.Failure t error) : error.Tells t := by
  cases fails with
  | counters stops =>
      exact stops.tells.of_isInfix (Text.isInfix_of_mem_pieceList List.mem_cons_self)
  | count counters notTwo => exact .policyCount notTwo
  | policy counters member fails =>
      obtain ⟨-, before, after, rfl, -⟩ := CacheStats.exists_cut_of_mem_policyTexts counters member
      exact fails.tells.of_isInfix ⟨before, after, by simp⟩

/-- An error of a segment tells something of its text. -/
theorem Segment.Failure.tells (fails : Segment.Failure t error) : error.Tells t := by
  cases fails with
  | nothing => exact .emptySegment
  | unknown head nonempty notHeader notRatios notCache =>
      subst head
      exact .unknownSegment (Text.headWord_trim_isInfix t) nonempty notHeader notRatios notCache
  | header head stops | ratios head stops =>
      exact (stops.tells (Text.getLast?_afterWord_trim t)).of_isInfix
        (Text.afterWord_trim_isInfix t)
  | cache head fails => exact fails.tells.of_isInfix (Text.afterWord_trim_isInfix t)

end

/-!
### Whole fields

A word that is quoted ends with any white space, a field with a separator only.  Where
all white space separates, a word that is quoted is a whole field: the place where a
separator is missing can only be the end of the text, so it is never there that a word
begins.
-/

/-- All white space in the text separates fields. -/
def Text.PlainlySpaced (t : Text) : Prop :=
  ∀ c ∈ t, Text.isSpace c = true → Text.isSeparator c = true

theorem Text.PlainlySpaced.of_isInfix {s t : Text} (spaced : t.PlainlySpaced) (inside : s <:+: t) :
    s.PlainlySpaced :=
  fun c member => spaced c (inside.subset member)

theorem Text.PlainlySpaced.separated {t : Text} (spaced : t.PlainlySpaced)
    (opens : ∀ c ∈ t.head?, Text.isSpace c = true) : t.Separated :=
  fun c first => spaced c (List.mem_of_mem_head? first) (opens c first)

/-- The word stands in the text as a field: behind a separator, up to the end of the
text or to a character that ends fields, and without such a character in it. -/
structure Text.HasField (ends : Char → Prop) (t word : Text) : Prop where
  cut : ∃ before separator after, t = before ++ separator :: (word ++ after) ∧
    Text.isSeparator separator = true ∧ ∀ c ∈ after.head?, ends c
  nonempty : word ≠ []
  whole : ∀ c ∈ word, ¬ ends c

/-- A field stays one in a longer text, and where more characters end fields, if what
follows it there ends fields and it has none of these characters in it. -/
theorem Text.HasField.widen {ends wider : Char → Prop} {s t word before after : Text}
    (isField : t.HasField ends word) (weaker : ∀ c, ends c → wider c)
    (whole : ∀ c ∈ word, ¬ wider c) (shape : s = before ++ (t ++ after))
    (closes : ∀ c ∈ after.head?, wider c) : s.HasField wider word where
  cut := by
    obtain ⟨early, separator, late, rfl, separates, ends⟩ := isField.cut
    refine ⟨before ++ early, separator, late ++ after, by simp [shape], separates, ?_⟩
    intro c first
    cases late with
    | nil => exact closes c first
    | cons d late => exact weaker c (ends c first)
  nonempty := isField.nonempty
  whole := whole

section

variable {fields : List ReportField} {t : Text} {field : ReportField} {word : String}

/-- The fields before the one that fails are written, and it stands behind them. -/
theorem StopsAt.exists_behind {place : Nat} {shown : Text} (separated : t.Separated)
    (stops : StopsAt fields t place field shown) :
    ∃ written behind, t = written ++ behind ∧ behind.Separated ∧ field.Fails behind shown := by
  obtain ⟨written, values, behind, rfl, -, holds, ends, fails⟩ := stops
  refine ⟨written, behind, rfl, ?_, fails⟩
  cases place with
  | zero =>
      cases holds
      exact separated
  | succ place => exact ends (Nat.succ_ne_zero place)

/-- With plain spacing, the word of a malformed field is a whole field that writes no
value. -/
theorem FieldsOutcome.hasField (spaced : t.PlainlySpaced)
    (opens : ∀ c ∈ t.head?, Text.isSpace c = true)
    (outcome : FieldsOutcome fields t (.error (.malformedField field word))) :
    t.HasField (fun c => Text.isSeparator c = true) word.toList ∧
      ∀ value, ¬ field.type.Writes word.toList value := by
  cases outcome with
  | @malformed place _ shown word stops first =>
      obtain ⟨written, behind, rfl, begins, fails⟩ := stops.exists_behind (spaced.separated opens)
      rw [String.toList_ofList]
      have notEmpty : shown ≠ [] := by
        rintro rfl
        exact first.nonempty (List.eq_nil_of_infix_nil first.isInfix)
      cases fails with
      | unseparated solid =>
          obtain ⟨c, rest, rfl⟩ := List.exists_cons_of_ne_nil notEmpty
          have separates := begins c rfl
          rw [solid c rfl] at separates
          cases separates
      | ended => exact absurd rfl notEmpty
      | @unwritten blanks token rest blanksNonempty separate tokenNonempty solid separated
          writesNothing =>
          -- A token may hold white space that is no separator, but not under plain spacing.
          have solidToken : Text.Solid token := by
            intro c member
            by_contra space
            rw [Bool.not_eq_false] at space
            have separates := spaced c (by simp [member]) space
            rw [solid c member] at separates
            cases separates
          have tokenFirst : Text.IsFirstWord (token ++ rest) token :=
            ⟨⟨[], rest, rfl, Text.blank_nil, separated.opens⟩, tokenNonempty, solidToken⟩
          obtain rfl : token = word :=
            (Text.isFirstWord_iff.mp tokenFirst).2.symm.trans (Text.isFirstWord_iff.mp first).2
          refine ⟨⟨⟨written ++ blanks.dropLast, blanks.getLast blanksNonempty, rest, ?_, ?_,
            separated⟩, tokenNonempty, ?_⟩, writesNothing⟩
          · have cut := List.dropLast_append_getLast blanksNonempty
            calc written ++ (blanks ++ (token ++ rest))
                = written ++ (blanks.dropLast ++ [blanks.getLast blanksNonempty] ++
                    (token ++ rest)) := by rw [cut]
              _ = _ := by simp
          · exact separate _ (List.getLast_mem blanksNonempty)
          · intro c member separates
            rw [solid c member] at separates
            cases separates

theorem LayoutOutcome.hasField (spaced : t.PlainlySpaced)
    (opens : ∀ c ∈ t.head?, Text.isSpace c = true)
    (outcome : LayoutOutcome fields t (.error (.malformedField field word))) :
    t.HasField (fun c => Text.isSeparator c = true) word.toList ∧
      ∀ value, ¬ field.type.Writes word.toList value := by
  cases outcome with
  | failed stops => exact stops.hasField spaced opens

/-- White space round a text that is trimmed ends the fields behind its first word. -/
theorem Text.HasField.of_afterWord_trim {word : Text} (spaced : t.PlainlySpaced)
    (isField : (Text.afterWord (Text.trim t)).HasField
      (fun c => Text.isSeparator c = true) word) :
    t.HasField (fun c => Text.isSeparator c = true) word := by
  obtain ⟨before, after, blankAfter, cut⟩ := Text.exists_cut_afterWord_trim t
  refine isField.widen (fun _ separates => separates) isField.whole cut fun c first => ?_
  have member := List.mem_of_mem_head? first
  exact spaced c (by rw [cut]; simp [member]) (blankAfter c member)

/-- The word of a malformed field of a policy is a whole field. -/
theorem Policy.Failure.hasField (spaced : t.PlainlySpaced)
    (fails : Policy.Failure t (.malformedField field word)) :
    t.HasField (fun c => Text.isSeparator c = true) word.toList ∧
      ∀ value, ¬ field.type.Writes word.toList value := by
  cases fails with
  | fields head stops =>
      obtain ⟨isField, writesNothing⟩ :=
        stops.hasField (spaced.of_isInfix (Text.afterWord_trim_isInfix t)) (Text.afterWord_opens _)
      exact ⟨isField.of_afterWord_trim spaced, writesNothing⟩

/-- A field of a part of a cache segment without colons, which ends with the segment or
at a colon, is a field of the segment. -/
theorem Text.HasField.of_colonless {part word before after : Text}
    (isField : part.HasField (fun c => Text.isSeparator c = true) word) (noColon : ':' ∉ part)
    (shape : t = before ++ (part ++ after)) (closes : ∀ c ∈ after.head?, c = ':') :
    t.HasField (fun c => Text.isSeparator c = true ∨ c = ':') word := by
  refine isField.widen (fun _ => .inl) ?_ shape fun c first => .inr (closes c first)
  obtain ⟨early, separator, late, rfl, -, -⟩ := isField.cut
  rintro c member (separates | rfl)
  · exact isField.whole c member separates
  · exact noColon (by simp [member])

/-- The word of a malformed field of a cache is a whole field, which a colon may end. -/
theorem CacheStats.Failure.hasField (spaced : t.PlainlySpaced)
    (opens : ∀ c ∈ t.head?, Text.isSpace c = true)
    (fails : CacheStats.Failure t (.malformedField field word)) :
    t.HasField (fun c => Text.isSeparator c = true ∨ c = ':') word.toList ∧
      ∀ value, ¬ field.type.Writes word.toList value := by
  cases fails with
  | counters stops =>
      have piece : (Text.pieces ':' t).1 ∈ Text.pieceList ':' t := List.mem_cons_self
      have opensFirst : ∀ c ∈ (Text.pieces ':' t).1.head?, Text.isSpace c = true :=
        fun c first => opens c (Text.mem_head?_of_mem_head?_pieces first)
      obtain ⟨before, after, shape, closes⟩ := Text.exists_cut_of_mem_pieceList piece
      obtain ⟨isField, writesNothing⟩ :=
        stops.hasField (spaced.of_isInfix (Text.isInfix_of_mem_pieceList piece)) opensFirst
      exact ⟨isField.of_colonless (Text.not_mem_of_mem_pieceList piece) shape closes,
        writesNothing⟩
  | policy counters member fails =>
      obtain ⟨noColon, before, after, shape, closes⟩ :=
        CacheStats.exists_cut_of_mem_policyTexts counters member
      obtain ⟨isField, writesNothing⟩ :=
        fails.hasField (spaced.of_isInfix ⟨before, after, by simp [shape]⟩)
      exact ⟨isField.of_colonless noColon shape closes, writesNothing⟩

/-- The characters that end a field of a segment: separators and, in the segment of a
cache, colons. -/
def Segment.EndsField (segment : Text) (c : Char) : Prop :=
  Text.isSeparator c = true ∨
    c = ':' ∧ Text.headWord (Text.trim segment) = cacheKeyword.toList

theorem LayoutOutcome.hasField_of_segment (spaced : t.PlainlySpaced)
    (notCache : Text.headWord (Text.trim t) ≠ cacheKeyword.toList)
    (outcome : LayoutOutcome fields (Text.afterWord (Text.trim t))
      (.error (.malformedField field word))) :
    t.HasField (Segment.EndsField t) word.toList ∧
      ∀ value, ¬ field.type.Writes word.toList value := by
  obtain ⟨isField, writesNothing⟩ :=
    outcome.hasField (spaced.of_isInfix (Text.afterWord_trim_isInfix t)) (Text.afterWord_opens _)
  have inSegment := isField.of_afterWord_trim spaced
  have shape : t = [] ++ (t ++ []) := by simp
  refine ⟨inSegment.widen (fun _ => .inl) ?_ shape (by simp), writesNothing⟩
  rintro c member (separates | ⟨-, isCache⟩)
  · exact inSegment.whole c member separates
  · exact notCache isCache

/-- The word of a malformed field of a segment is a whole field. -/
theorem Segment.Failure.hasField (spaced : t.PlainlySpaced)
    (fails : Segment.Failure t (.malformedField field word)) :
    t.HasField (Segment.EndsField t) word.toList ∧
      ∀ value, ¬ field.type.Writes word.toList value := by
  cases fails with
  | header head stops => exact stops.hasField_of_segment spaced (by rw [head]; decide)
  | ratios head stops => exact stops.hasField_of_segment spaced (by rw [head]; decide)
  | cache head fails =>
      obtain ⟨isField, writesNothing⟩ :=
        fails.hasField (spaced.of_isInfix (Text.afterWord_trim_isInfix t)) (Text.afterWord_opens _)
      obtain ⟨before, after, blankAfter, cut⟩ := Text.exists_cut_afterWord_trim t
      refine ⟨isField.widen ?_ ?_ cut ?_, writesNothing⟩
      · rintro c (separates | rfl)
        · exact .inl separates
        · exact .inr ⟨rfl, head⟩
      · rintro c member (separates | ⟨rfl, -⟩)
        · exact isField.whole c member (.inl separates)
        · exact isField.whole ':' member (.inr rfl)
      · intro c first
        have member := List.mem_of_mem_head? first
        exact .inl (spaced c (by rw [cut]; simp [member]) (blankAfter c member))

end

/-! ### Lines -/

namespace Report

variable {line : Text} {error : LineError}

/-- The error of a line is about the whole line, or it is the error of a segment. -/
theorem exists_segment_of_readLine_error (fails : readLine line = .error error) :
    error = .missingGlobal ∨ error = .misplacedHeader ∨ error = .duplicateGlobal ∨
      ∃ segment ∈ Text.pieceList '|' line, Segment.read segment = .error error := by
  by_cases lacks : error = .missingGlobal
  · exact .inl lacks
  obtain ⟨place, fault, -⟩ := first_fault_of_readLine_error fails lacks
  cases fault with
  | header => exact .inr (.inl rfl)
  | ratios => exact .inr (.inr (.inl rfl))
  | unread found =>
      rw [readings_eq_map_pieceList] at found
      obtain ⟨segment, listed, reads⟩ := List.mem_map.mp (List.mem_of_getElem? found)
      exact .inr (.inr (.inr ⟨segment, listed, reads⟩))

/-- What the error of a line quotes is not empty, stands in the line and within one
segment, and is of the kind it is said to be.  If all white space in the line separates
fields, a malformed field is a whole field of the segment that fails, and writes no value
of its type. -/
theorem readLine_error_tells {line : Text} {error : LineError}
    (fails : readLine line = .error error) :
    error.Tells line ∧ (∀ quoted ∈ error.quoted?, '|' ∉ quoted.toList) ∧
      (line.PlainlySpaced → ∀ field word, error = .malformedField field word →
        ∃ segment ∈ Text.pieceList '|' line, Segment.read segment = .error error ∧
          segment.HasField (Segment.EndsField segment) word.toList ∧
            ∀ value, ¬ field.type.Writes word.toList value) := by
  rcases exists_segment_of_readLine_error fails with
    rfl | rfl | rfl | ⟨segment, listed, failsThere⟩
  · exact ⟨.missingGlobal, by simp [LineError.quoted?], fun _ _ _ same => by cases same⟩
  · exact ⟨.misplacedHeader, by simp [LineError.quoted?], fun _ _ _ same => by cases same⟩
  · exact ⟨.duplicateGlobal, by simp [LineError.quoted?], fun _ _ _ same => by cases same⟩
  · have failure := Segment.failure_of_read failsThere
    have inside := Text.isInfix_of_mem_pieceList listed
    refine ⟨failure.tells.of_isInfix inside, fun quoted quotes bar => ?_, ?_⟩
    · exact Text.not_mem_of_mem_pieceList listed
        ((failure.tells.quoted_isInfix quotes).subset bar)
    · rintro spaced field word rfl
      obtain ⟨isField, writesNothing⟩ := failure.hasField (spaced.of_isInfix inside)
      exact ⟨segment, listed, failsThere, isField, writesNothing⟩

/-- A counter with a point stands directly before a colon. -/
theorem readLine_error_tells_before_colon :
    let line : Text := "emulator_periodic_reporting 1 2 3 |\tcache 0 0 7.0:lru 5".toList
    let error := LineError.malformedField .hits "7.0"
    readLine line = .error error ∧ line.PlainlySpaced ∧ error.Tells line ∧
      ∃ segment ∈ Text.pieceList '|' line,
        segment.HasField (Segment.EndsField segment) "7.0".toList ∧
          ∀ value, ¬ FieldType.counter.Writes "7.0".toList value := by
  intro line error
  have fails : readLine line = .error error := by decide +kernel
  have spaced : line.PlainlySpaced := by
    have all : line.all (fun c => !Text.isSpace c || Text.isSeparator c) = true := by
      decide +kernel
    intro c member space
    have shown := List.all_eq_true.mp all c member
    rwa [space, Bool.not_true, Bool.false_or] at shown
  obtain ⟨tells, -, shows⟩ := readLine_error_tells fails
  obtain ⟨segment, listed, -, isField, writesNothing⟩ := shows spaced .hits "7.0" rfl
  exact ⟨fails, spaced, tells, segment, listed, isField, writesNothing⟩

end Report

end CacheRuns
