/-
Module: CacheRuns.Proofs.Report.Synonyms
Purpose: Where a line has the name of a policy, another name of its layout changes nothing but
  the kind of that policy.
Main exports:
  Report.exists_ahead_of_readLine, PolicyPlace, PolicyPlace.line, PolicyPlace.readLine_line,
  PolicyPlace.exists_of_readLine, Report.synonyms_read_alike
-/
import CacheRuns.Proofs.Report.Acceptance
import CacheRuns.Proofs.Report.PolicyNames
import CacheRuns.Proofs.Report.Update

namespace CacheRuns

/-- In a line that is read, the segment of each cache stands behind a bar, and as many caches
as its number says are read from what comes before. -/
theorem Report.exists_ahead_of_readLine {line : Text} {report : Report}
    (reads : readLine line = .ok (some report)) {index : Nat} {stats : CacheStats}
    (found : report.caches[index]? = some stats) :
    ∃ (ahead segment : Text) (later : List Text),
      line = ahead ++ '|' :: (segment ++ later.flatMap ('|' :: ·)) ∧
      '|' ∉ segment ∧ ((readings ahead).filterMap cacheOf?).length = index ∧
      CacheStats.Grammar segment stats := by
  obtain ⟨inside, rfl⟩ := List.getElem?_eq_some_iff.mp found
  have caches := caches_of_readLine reads
  rw [readings_eq_map_pieceList, List.filterMap_map,
    ← List.take_append_drop index report.caches, List.drop_eq_getElem_cons inside] at caches
  obtain ⟨early, behind, cut, counted, others⟩ := List.filterMap_eq_append_iff.mp caches
  obtain ⟨skipped, segment, later, rfl, noCaches, isCache, -⟩ :=
    List.filterMap_eq_cons_iff.mp others
  have readsCache := cacheOf?_eq_some_iff.mp isCache
  rw [← List.append_assoc] at cut
  -- The first segment is the header, so it is not the one of the cache.
  have leading : early ++ skipped ≠ [] := by
    intro nothing
    obtain ⟨draft, holds, -⟩ := exists_draft_of_readLine reads
    have opens := holds.header
    rw [readings_eq_map_pieceList, cut, nothing] at opens
    cases readsCache.symm.trans (Option.some.inj opens)
  obtain ⟨ahead, aheadPieces, shape⟩ := Text.exists_ahead_of_pieceList_eq cut leading
  refine ⟨ahead, segment, later, shape, ?_, ?_, Segment.read_eq_cache_iff.mp readsCache⟩
  · exact Text.not_mem_of_mem_pieceList (cut ▸ List.mem_append_right _ List.mem_cons_self)
  · rw [readings_eq_map_pieceList, aheadPieces, List.filterMap_map, List.filterMap_append, counted,
      List.filterMap_eq_nil_iff.mpr noCaches, List.append_nil, List.length_take,
      Nat.min_eq_left (Nat.le_of_lt inside)]

/-- A line in which the name of a policy is left open: it stands in the segment of a cache,
where a policy is introduced, and is followed by white space or by what ends the policy. -/
structure PolicyPlace where
  /-- What comes before the bar before the segment. -/
  ahead : Text
  spaces : Text
  /-- What stands between the keyword of the segment and the name. -/
  body : Text
  behind : Text
  blank : spaces.Blank
  opens : ∀ c ∈ body.head?, Text.isSpace c = true
  introduces : CacheStats.BeforePolicy body
  noBar : '|' ∉ body
  ends : ∀ c ∈ behind.head?, Text.isSpace c = true ∨ c = ':' ∨ c = '|'

namespace PolicyPlace

/-- The line with a name in its place. -/
def line (place : PolicyPlace) (kind : PolicyKind) : Text :=
  place.ahead ++
    '|' :: (place.spaces ++ (cacheKeyword.toList ++ (place.body ++
      (kind.name.toList ++ place.behind))))

/-- What comes after the name in the same segment. -/
def tail (place : PolicyPlace) : Text :=
  (Text.pieces '|' place.behind).1

/-- A policy that a colon follows is the one for admission. -/
def role (place : PolicyPlace) : PolicyRole :=
  if ':' ∈ place.tail then .admission else .eviction

/-- The number of caches that come before the one with the name. -/
def cache (place : PolicyPlace) : Nat :=
  ((Report.readings place.ahead).filterMap Report.cacheOf?).length

variable (place : PolicyPlace) {kind other : PolicyKind}

/-! ### What is read at the place -/

/-- What is read for the cache with the name. -/
def read (kind : PolicyKind) : Except LineError CacheStats :=
  CacheStats.read (place.body ++ (kind.name.toList ++ Text.trimEnd place.tail))

/-- The segment with a name in its place. -/
def segment (kind : PolicyKind) : Text :=
  place.spaces ++ (cacheKeyword.toList ++ (place.body ++ (kind.name.toList ++ place.tail)))

theorem read_segment (kind : PolicyKind) :
    Segment.read (place.segment kind) = (place.read kind).map .cache := by
  have trimmed : Text.trim (place.segment kind) = cacheKeyword.toList ++ (place.body ++
      (kind.name.toList ++ Text.trimEnd place.tail)) := by
    have ended := Text.trimEnd_append_word (cacheKeyword.toList ++ place.body)
      kind.name_ne_nil kind.solid_name place.tail
    rw [segment, Text.trim_blank_append place.blank, Text.trim,
      Text.trimStart_word_append (by decide) solid_cacheKeyword, ← List.append_assoc, ended,
      List.append_assoc]
  have opens : ∀ c ∈ (place.body ++ (kind.name.toList ++ Text.trimEnd place.tail)).head?,
      Text.isSpace c = true := by
    rw [List.head?_append_of_ne_nil _ place.introduces.ne_nil]
    exact place.opens
  obtain ⟨head, behind⟩ :=
    (Text.trimmedTo_word_iff solid_cacheKeyword opens).mp (Text.trim_eq_iff.mp trimmed)
  rw [Segment.read_of_cacheKeyword head, behind, read]

theorem readings_line (kind : PolicyKind) :
    Report.readings (place.line kind) =
      Report.readings place.ahead ++
        (place.read kind).map .cache :: (Text.pieces '|' place.behind).2.map Segment.read := by
  have noBarSpaces : '|' ∉ place.spaces := place.blank.not_mem (by decide)
  have noBarKeyword : '|' ∉ cacheKeyword.toList := plain_cacheKeyword.not_mem (.inr rfl)
  have noBarName : '|' ∉ kind.name.toList := kind.plain_name.not_mem (.inr rfl)
  have cut : Text.pieceList '|' (place.spaces ++ (cacheKeyword.toList ++ (place.body ++
      (kind.name.toList ++ place.behind)))) =
        place.segment kind :: (Text.pieces '|' place.behind).2 := by
    rw [Text.pieceList, Text.pieces_append_of_not_mem noBarSpaces,
      Text.pieces_append_of_not_mem noBarKeyword, Text.pieces_append_of_not_mem place.noBar,
      Text.pieces_append_of_not_mem noBarName, segment, tail]
  rw [line, Report.readings_append_bar, Report.readings_eq_map_pieceList (_ ++ _), cut,
    List.map_cons, read_segment]

theorem opens_behind_name :
    ∀ c ∈ (Text.pieces ':' (Text.trimEnd place.tail)).1.head?, Text.isSpace c = true := by
  intro c first
  have ofTail : c ∈ place.tail.head? :=
    Text.mem_head?_of_mem_head?_trimEnd (Text.mem_head?_of_mem_head?_pieces first)
  rcases place.ends c (Text.mem_head?_of_mem_head?_pieces ofTail) with space | rfl | rfl
  · exact space
  · exact absurd (List.mem_of_mem_head? first) (Text.separator_not_mem_pieces_first ':' _)
  · exact absurd (List.mem_of_mem_head? ofTail) (Text.separator_not_mem_pieces_first '|' _)

theorem role_eq :
    place.role = if (Text.pieces ':' (Text.trimEnd place.tail)).2 = [] then .eviction
      else .admission := by
  have noColon : ¬ ':' ∈ place.tail ↔ (Text.pieces ':' (Text.trimEnd place.tail)).2 = [] := by
    rw [Text.pieces_others_eq_nil_iff, Text.mem_trimEnd_iff (by decide)]
  rw [role]
  by_cases colon : ':' ∈ place.tail
  · rw [if_pos colon, if_neg fun none => noColon.mpr none colon]
  · rw [if_neg colon, if_pos (noColon.mp colon)]

theorem read_call (same : kind.layout = other.layout) :
    place.read other = (place.read kind).map (CacheStats.call place.role other) := by
  rw [read, read]
  rcases place.introduces.read_cases with ⟨error, fails⟩ | ⟨values, front, blanks, blank, reads⟩
  · rw [fails, fails]
    rfl
  · have called := Policy.read_call same blank place.opens_behind_name
    rw [reads, reads, CacheStats.readPolicies_call called, role_eq]

/-- Whatever becomes of a line, the same becomes of it with another name of the layout. -/
theorem readLine_line (same : kind.layout = other.layout) :
    Report.readLine (place.line other) =
      (Report.readLine (place.line kind)).map
        (Option.map (Report.updateCache place.cache (CacheStats.call place.role other))) := by
  have starts : Report.startsReport (place.line other) = Report.startsReport (place.line kind) := by
    rw [line, line, Report.startsReport_append_bar, Report.startsReport_append_bar]
  refine Report.readLine_update starts (List.cons_ne_nil _ _) (place.readings_line kind) ?_
  rw [place.readings_line other, place.read_call same]

/-! ### The places of a line that is read -/

/-- The policy at a place is the one that is named there. -/
theorem kind_of_readLine {report : Report}
    (reads : Report.readLine (place.line kind) = .ok (some report)) :
    ∃ stats, report.caches[place.cache]? = some stats ∧ (stats.policy place.role).kind = kind := by
  obtain ⟨draft, holds, -⟩ := Report.exists_draft_of_readLine reads
  have caches := Report.caches_of_readLine reads
  have faultless := holds.faultless
  rw [place.readings_line] at caches faultless
  cases readsCache : place.read kind with
  | error error =>
      rw [readsCache] at faultless
      exact absurd (.unread (by simp [Except.map]))
        (faultless (Report.readings place.ahead).length error)
  | ok stats =>
      refine ⟨stats, ?_, ?_⟩
      · rw [← caches, readsCache]
        simp [cache, Except.map, Report.cacheOf?]
      · -- Calling the policy by the name it has already changes nothing.
        have own : place.read kind = (place.read kind).map (CacheStats.call place.role kind) :=
          place.read_call rfl
        rw [readsCache] at own
        have called : stats = stats.call place.role kind := Except.ok.inj own
        rw [called]
        exact CacheStats.kind_policy_call place.role kind stats

/-- Every policy of every cache is named at a place of the line. -/
theorem exists_of_readLine {line : Text} {report : Report}
    (reads : Report.readLine line = .ok (some report)) {index : Nat} {stats : CacheStats}
    (found : report.caches[index]? = some stats) (role : PolicyRole) :
    ∃ place : PolicyPlace, place.cache = index ∧ place.role = role ∧
      line = place.line (stats.policy role).kind := by
  obtain ⟨ahead, segment, later, rfl, noBar, counted, grammar⟩ :=
    Report.exists_ahead_of_readLine reads found
  obtain ⟨spaces, body, rest, rfl, blank, introduces, opens, ends, colon⟩ :=
    grammar.exists_name role
  simp only [List.mem_append, not_or] at noBar
  obtain ⟨-, -, noBarBody, -, noBarRest⟩ := noBar
  -- The place is what the grammar cuts out round the name, with the other segments.
  let place : PolicyPlace :=
    { ahead, spaces, body, blank, opens, introduces
      behind := rest ++ later.flatMap ('|' :: ·)
      noBar := noBarBody
      ends := by
        intro c first
        rcases Text.mem_head?_append first with here | bar
        · rcases ends c here with space | rfl
          · exact .inl space
          · exact .inr (.inl rfl)
        · exact .inr (.inr (Text.eq_separator_of_mem_head?_flatMap bar)) }
  have tail : place.tail = rest := by
    rw [PolicyPlace.tail, Text.pieces_append_of_not_mem noBarRest,
      Text.pieces_first_eq_nil fun _ => Text.eq_separator_of_mem_head?_flatMap, List.append_nil]
  refine ⟨place, counted, ?_, ?_⟩
  · rw [PolicyPlace.role, tail]
    cases role <;> simp [colon]
  · simp [PolicyPlace.line, place]

end PolicyPlace

/-! ### Synonyms -/

/-- The names of one layout, which are those of one list of synonyms, are read alike.  With
any white space before the name, and with white space or nothing behind it, both are read as
policies of one state and of their own kinds, or both fail with one error.  In a line, the
name of a policy can be replaced at its place: a line that is no report stays none, one that
fails does so with the same error, and in a report nothing changes but the kind of the policy
at that place.  In a line that is read, the places are those of the two policies of each
cache, and the names that stand there are theirs. -/
theorem Report.synonyms_read_alike :
    (∀ kind other : PolicyKind, kind.layout = other.layout ↔
      ∃ names ∈ PolicyKind.synonyms, kind.name ∈ names ∧ other.name ∈ names) ∧
    (∀ (kind other : PolicyKind) (before rest : Text), kind.layout = other.layout →
      before.Blank → (∀ c ∈ rest.head?, Text.isSpace c = true) →
      (∃ state, Policy.read (before ++ (kind.name.toList ++ rest)) = .ok ⟨kind, state⟩ ∧
        Policy.read (before ++ (other.name.toList ++ rest)) = .ok ⟨other, state⟩) ∨
      ∃ error, Policy.read (before ++ (kind.name.toList ++ rest)) = .error error ∧
        Policy.read (before ++ (other.name.toList ++ rest)) = .error error) ∧
    (∀ (place : PolicyPlace) (kind other : PolicyKind), kind.layout = other.layout →
      readLine (place.line other) = (readLine (place.line kind)).map
        (Option.map (updateCache place.cache (CacheStats.call place.role other)))) ∧
    ∀ line report, readLine line = .ok (some report) → ∀ index role kind,
      (∃ place : PolicyPlace, place.cache = index ∧ place.role = role ∧ line = place.line kind) ↔
        ∃ stats, report.caches[index]? = some stats ∧ (stats.policy role).kind = kind := by
  refine ⟨fun _ _ => PolicyKind.layout_eq_iff, ?_, ?_, ?_⟩
  · intro kind other before rest same blank opens
    have called := Policy.read_call same blank opens
    rw [Policy.read_name blank opens kind] at called ⊢
    rw [called]
    cases readAllFields kind.layout.fields (Text.trimEnd rest) with
    | error error => exact .inr ⟨error, rfl, rfl⟩
    | ok values => exact .inl ⟨_, rfl, rfl⟩
  · exact fun place kind other same => place.readLine_line same
  · intro line report reads index role kind
    constructor
    · rintro ⟨place, rfl, rfl, rfl⟩
      exact place.kind_of_readLine reads
    · rintro ⟨stats, found, rfl⟩
      exact PolicyPlace.exists_of_readLine reads found role

/-- The name before the fill of a filter, in a line and in a policy whose fill is no number. -/
theorem Report.synonyms_read_alike_fill :
    let ahead := "emulator_periodic_reporting 1 2 3|ghr 0 0 0 0".toList
    let body := " 0 0 1 2 3 4 5 6 7 8:".toList
    let line (name : String) :=
      ahead ++ '|' :: (cacheKeyword.toList ++ (body ++ (name.toList ++ " 0.5:lru 1 2".toList)))
    (∃ report, readLine (line "2hc") = .ok (some report) ∧
      readLine (line "2hc_rot") =
        .ok (some (report.updateCache 0 (CacheStats.call .admission .secondHitRot)))) ∧
    Policy.read "\t2hc 0.5x ".toList = .error (.malformedField .fillPercentage "0.5x") ∧
    Policy.read "\t2hc_rot 0.5x ".toList = .error (.malformedField .fillPercentage "0.5x") := by
  intro ahead body line
  let place : PolicyPlace :=
    { ahead, body
      spaces := []
      behind := " 0.5:lru 1 2".toList
      blank := by decide
      opens := by simp [body, Text.isSpace]
      introduces := .colon " 0 0 1 2 3 4 5 6 7 8".toList [] (by decide)
      noBar := by decide
      ends := by simp [Text.isSpace] }
  obtain ⟨-, policies, lines, -⟩ := Report.synonyms_read_alike
  refine ⟨?_, ?_⟩
  · have renamed := lines place .secondHit .secondHitRot rfl
    have isRead : (readLine (place.line .secondHit)).toOption.any Option.isSome = true := by
      decide +kernel
    have counted : place.cache = 0 := by decide +kernel
    have admission : place.role = .admission := by decide
    rw [counted, admission] at renamed
    cases reads : readLine (place.line .secondHit) with
    | error error =>
        rw [reads] at isRead
        cases isRead
    | ok report? =>
        rw [reads] at isRead renamed
        cases report? with
        | none => cases isRead
        | some report => exact ⟨report, reads, renamed⟩
  · have fails : Policy.read "\t2hc 0.5x ".toList =
        .error (.malformedField .fillPercentage "0.5x") := by decide +kernel
    refine ⟨fails, ?_⟩
    rcases policies .secondHit .secondHitRot "\t".toList " 0.5x ".toList rfl (by decide)
      (by simp [Text.isSpace]) with ⟨state, reads, -⟩ | ⟨error, failsHere, failsThere⟩
    · cases fails.symm.trans reads
    · cases fails.symm.trans failsHere
      exact failsThere

end CacheRuns
