/-
Module: CacheRuns.Proofs.Report.PolicyNames
Purpose: What is read when a policy is called by another name of its layout.
Main exports:
  PolicyKind.synonyms, PolicyKind.layout_eq_iff, Policy.call, Policy.read_call,
  CacheStats.call, CacheStats.readPolicies_call, CacheStats.BeforePolicy,
  CacheStats.BeforePolicy.read_cases
-/
import CacheRuns.Proofs.Report.CacheForms

namespace CacheRuns

/-!
A name is cut off before the fields behind it are read, and its layout alone says what they
are.  So the kind is all by which a policy tells one name of its layout from another.
-/

namespace PolicyKind

/-- The names of all policies, those of one layout together. -/
def synonyms : List (List String) :=
  [["lru", "fifo", "cost_lru"], ["s4lru"], ["2hc", "2hc_rot"],
    ["null", "size", "prob", "prob_size"]]

/-- Two kinds have one layout exactly when they are synonyms. -/
theorem layout_eq_iff {kind other : PolicyKind} :
    kind.layout = other.layout ↔
      ∃ names ∈ synonyms, kind.name ∈ names ∧ other.name ∈ names := by
  cases kind <;> cases other <;> decide

end PolicyKind

/-! ### One policy -/

/-- The policy under another name. -/
def Policy.call (kind : PolicyKind) (policy : Policy) : Policy :=
  { policy with kind := kind }

section

variable {before rest : Text} {kind other : PolicyKind}

/-- What is trimmed at the end stands behind the name, and the name is the first word. -/
theorem Policy.read_name (blank : before.Blank) (opens : ∀ c ∈ rest.head?, Text.isSpace c = true)
    (kind : PolicyKind) :
    Policy.read (before ++ (kind.name.toList ++ rest)) =
      (readAllFields kind.layout.fields (Text.trimEnd rest)).map
        fun values => ⟨kind, kind.layout.state values⟩ := by
  have trimmed : Text.trim (before ++ (kind.name.toList ++ rest)) =
      kind.name.toList ++ Text.trimEnd rest := by
    rw [Text.trim_blank_append blank, Text.trim,
      Text.trimStart_word_append kind.name_ne_nil kind.solid_name,
      Text.trimEnd_solid_append kind.solid_name]
  have opensTrimmed : ∀ c ∈ (Text.trimEnd rest).head?, Text.isSpace c = true := fun c first =>
    opens c (Text.mem_head?_of_mem_head?_trimEnd first)
  obtain ⟨head, behind⟩ :=
    (Text.trimmedTo_word_iff kind.solid_name opensTrimmed).mp (Text.trim_eq_iff.mp trimmed)
  rw [Policy.read_of_headWord head, behind]

/-- A policy under a synonym reads as the policy under the other name, renamed. -/
theorem Policy.read_call (same : kind.layout = other.layout) (blank : before.Blank)
    (opens : ∀ c ∈ rest.head?, Text.isSpace c = true) :
    Policy.read (before ++ (other.name.toList ++ rest)) =
      (Policy.read (before ++ (kind.name.toList ++ rest))).map (Policy.call other) := by
  rw [Policy.read_name blank opens, Policy.read_name blank opens, same]
  cases readAllFields other.layout.fields (Text.trimEnd rest) <;> rfl

end

/-! ### The two policies of a cache -/

/-- What a policy of a cache is for. -/
inductive PolicyRole where
  | admission
  | eviction
deriving Repr, DecidableEq

namespace CacheStats

/-- The policy that a cache has in a role. -/
def policy (cache : CacheStats) : PolicyRole → Policy
  | .admission => cache.admission
  | .eviction => cache.eviction

/-- The cache with the policy in one role under another name. -/
def call (role : PolicyRole) (kind : PolicyKind) (cache : CacheStats) : CacheStats :=
  match role with
  | .admission => { cache with admission := cache.admission.call kind }
  | .eviction => { cache with eviction := cache.eviction.call kind }

theorem kind_policy_call (role : PolicyRole) (kind : PolicyKind) (cache : CacheStats) :
    ((cache.call role kind).policy role).kind = kind := by
  cases role <;> rfl

theorem readPolicies_of_length_ne {values : Values fields} {texts : List Text}
    (notTwo : texts.length ≠ 2) :
    readPolicies values texts = .error (.policyCount texts.length) := by
  rcases readPolicies_cases values texts with ⟨-, reads⟩ | ⟨_, _, -, -, two, -⟩ | ⟨_, two, -⟩
  · exact reads
  · exact absurd two notTwo
  · exact absurd two notTwo

/-- The last policy is the one for eviction. -/
theorem readPolicies_call {values : Values fields} {text renamed : Text} {kind : PolicyKind}
    (called : Policy.read renamed = (Policy.read text).map (Policy.call kind))
    (front after : List Text) :
    readPolicies values (front ++ renamed :: after) =
      (readPolicies values (front ++ text :: after)).map
        (call (if after = [] then .eviction else .admission) kind) := by
  by_cases two : (front ++ text :: after).length = 2
  · rcases front with _ | ⟨admission, _ | ⟨further, front⟩⟩
    · obtain ⟨eviction, rfl⟩ : ∃ eviction, after = [eviction] :=
        List.length_eq_one_iff.mp (by simpa using two)
      rw [if_neg (List.cons_ne_nil _ _)]
      simp only [List.nil_append, readPolicies, called]
      cases Policy.read text with
      | error error => rfl
      | ok policy => cases Policy.read eviction <;> rfl
    · obtain rfl : after = [] := by simpa using two
      rw [if_pos rfl]
      simp only [List.singleton_append, readPolicies, called]
      cases Policy.read admission with
      | error error => rfl
      | ok policy => cases Policy.read text <;> rfl
    · simp at two
  · have sameLength : (front ++ renamed :: after).length = (front ++ text :: after).length := by
      simp
    rw [readPolicies_of_length_ne two, readPolicies_of_length_ne (sameLength ▸ two), sameLength]
    rfl

/-- What can stand between the keyword of a cache and the name of a policy: something that
ends with a colon, or the counters and a separator, and white space behind it. -/
inductive BeforePolicy : Text → Prop where
  | colon (body blanks : Text) (blank : blanks.Blank) : BeforePolicy (body ++ ':' :: blanks)
  | counters {values : Values fields} (counters blanks : Text)
      (written : FieldsWritten fields counters values) (nonempty : blanks ≠ [])
      (separated : blanks.Separated) (blank : blanks.Blank) : BeforePolicy (counters ++ blanks)

theorem BeforePolicy.ne_nil {body : Text} (introduces : BeforePolicy body) : body ≠ [] := by
  cases introduces with
  | colon => simp
  | counters _ _ _ nonempty => simp [nonempty]

/-- More policies behind the last one are more texts at the end. -/
theorem policyTexts_append (leftover : Text) (behind later : List Text) :
    policyTexts leftover (behind ++ later) = policyTexts leftover behind ++ later := by
  rw [policyTexts, policyTexts]
  split <;> rfl

theorem pieces_named {blanks : Text} (blank : blanks.Blank) (kind : PolicyKind) (rest : Text) :
    Text.pieces ':' (blanks ++ (kind.name.toList ++ rest)) =
      (blanks ++ (kind.name.toList ++ (Text.pieces ':' rest).1), (Text.pieces ':' rest).2) := by
  rw [Text.pieces_append_of_not_mem (blank.not_mem (by decide)),
    Text.pieces_append_of_not_mem (kind.plain_name.not_mem (.inl rfl))]

/-- Where a name is introduced, the segment fails before it is looked at, or it stands first in
the text of a policy. -/
theorem BeforePolicy.read_cases {body : Text} (introduces : BeforePolicy body) :
    (∃ error, ∀ (kind : PolicyKind) (rest : Text),
      read (body ++ (kind.name.toList ++ rest)) = .error error) ∨
    ∃ (values : Values fields) (front : List Text) (blanks : Text), blanks.Blank ∧
      ∀ (kind : PolicyKind) (rest : Text), read (body ++ (kind.name.toList ++ rest)) =
        readPolicies values
          (front ++ (blanks ++ (kind.name.toList ++ (Text.pieces ':' rest).1)) ::
            (Text.pieces ':' rest).2) := by
  cases introduces with
  | colon body blanks blank =>
      have cut (kind : PolicyKind) (rest : Text) :
          Text.pieces ':' (body ++ ':' :: blanks ++ (kind.name.toList ++ rest)) =
            ((Text.pieces ':' body).1, (Text.pieces ':' body).2 ++
              (blanks ++ (kind.name.toList ++ (Text.pieces ':' rest).1)) ::
                (Text.pieces ':' rest).2) := by
        rw [List.append_assoc, List.cons_append, Text.pieces_append_cons, pieces_named blank]
      -- Whether the counters are read does not depend on what is behind the colon.
      cases counters : readFields fields (Text.pieces ':' body).1 with
      | error error =>
          refine .inl ⟨error, fun kind rest => read_of_counters_error ?_⟩
          rw [cut, counters]
      | ok result =>
          obtain ⟨values, leftover⟩ := result
          refine .inr ⟨values, policyTexts leftover (Text.pieces ':' body).2, blanks, blank,
            fun kind rest => ?_⟩
          have countersHere : readFields fields (Text.pieces ':'
              (body ++ ':' :: blanks ++ (kind.name.toList ++ rest))).1 =
                .ok (values, leftover) := by
            rw [cut, counters]
          rw [read_of_counters countersHere, cut, policyTexts_append]
  | @counters values counters blanks written nonempty separated blank =>
      refine .inr ⟨values, [], blanks, blank, fun kind rest => ?_⟩
      have cut : Text.pieces ':' (counters ++ blanks ++ (kind.name.toList ++ rest)) =
          (counters ++ (blanks ++ (kind.name.toList ++ (Text.pieces ':' rest).1)),
            (Text.pieces ':' rest).2) := by
        rw [List.append_assoc, Text.pieces_append_of_not_mem (written.not_mem (.inl rfl)),
          pieces_named blank]
      -- Without a colon the name is in what the counters leave over, which is no white
      -- space.
      have named : ¬ Text.Blank (blanks ++ (kind.name.toList ++ (Text.pieces ':' rest).1)) := by
        intro allBlank
        exact Text.not_blank_word_append kind.name_ne_nil kind.solid_name _
          fun c member => allBlank c (List.mem_append_right blanks member)
      have countersHere : readFields fields (Text.pieces ':'
          (counters ++ blanks ++ (kind.name.toList ++ rest))).1 =
            .ok (values, blanks ++ (kind.name.toList ++ (Text.pieces ':' rest).1)) := by
        rw [cut]
        exact readFields_eq_ok_iff.mpr
          ⟨counters, rfl, written, fun _ => separated.append nonempty _⟩
      rw [read_of_counters countersHere, cut, policyTexts_of_not_blank named, List.nil_append]

end CacheStats

/-! ### Where the names are -/

theorem PolicyKind.not_separated_name_append (kind : PolicyKind) (rest : Text) :
    ¬ Text.Separated (kind.name.toList ++ rest) := by
  obtain ⟨c, word, spelled⟩ := List.exists_cons_of_ne_nil kind.name_ne_nil
  have solid : Text.isSpace c = false := kind.solid_name c (spelled ▸ List.mem_cons_self)
  intro separated
  rw [spelled] at separated
  rw [separated.opens c rfl] at solid
  cases solid

theorem Policy.Grammar.exists_name {t : Text} {policy : Policy}
    (grammar : Policy.Grammar t policy) :
    ∃ blanks rest, t = blanks ++ (policy.kind.name.toList ++ rest) ∧ blanks.Blank ∧
      ∀ c ∈ rest.head?, Text.isSpace c = true := by
  obtain ⟨values, ⟨written, trimmed, holds⟩, -⟩ := grammar
  obtain ⟨before, after, blankBefore, blankAfter, cut⟩ := trimmed.cut
  refine ⟨before, written ++ after, by simpa using cut, blankBefore, fun c first => ?_⟩
  rcases Text.mem_head?_append first with inFields | behind
  · exact holds.separated.opens c inFields
  · exact blankAfter c (List.mem_of_mem_head? behind)

namespace CacheStats

section

variable {t admissionText evictionText blanks named : Text} {values : Values fields}

theorem Spelling.colon_not_mem_evictionText
    (spelling : Spelling values t admissionText evictionText) : ':' ∉ evictionText := by
  cases spelling with
  | colons _ _ _ _ _ noColonEviction => exact noColonEviction
  | compact _ _ _ _ _ noColonEviction => exact noColonEviction

/-- What stands before the name of the admission policy can introduce a policy. -/
theorem Spelling.exists_before_admission (spelling : Spelling values t admissionText evictionText)
    (blank : blanks.Blank) (solid : ¬ named.Separated) (starts : admissionText = blanks ++ named) :
    ∃ body, BeforePolicy body ∧ t = body ++ (named ++ ':' :: evictionText) := by
  cases spelling with
  | @colons written blank' _ _ counters separated isBlank noColon noColonAdmission
      noColonEviction =>
      refine ⟨_, .colon (written ++ blank') blanks blank, ?_⟩
      simp [starts]
  | @compact written _ _ counters separated notBlank noColon noColonAdmission noColonEviction =>
      have nonempty : blanks ≠ [] := by
        rintro rfl
        rw [List.nil_append] at starts
        exact solid (starts ▸ separated)
      have separatedBlanks : blanks.Separated := by
        intro c first
        apply separated c
        rwa [starts, List.head?_append_of_ne_nil blanks nonempty]
      refine ⟨_, .counters written blanks counters nonempty separatedBlanks blank, ?_⟩
      simp [starts]

/-- What stands before the name of the eviction policy can introduce a policy. -/
theorem Spelling.exists_before_eviction (spelling : Spelling values t admissionText evictionText)
    (blank : blanks.Blank) (starts : evictionText = blanks ++ named) :
    ∃ body, BeforePolicy body ∧ t = body ++ named := by
  cases spelling with
  | @colons written blank' =>
      refine ⟨_, .colon (written ++ blank' ++ ':' :: admissionText) blanks blank, ?_⟩
      simp [starts]
  | @compact written =>
      refine ⟨_, .colon (written ++ admissionText) blanks blank, ?_⟩
      simp [starts]

end

/-- A spelled cache has the name of each of its policies where a policy can begin; only
the admission policy has a colon behind it. -/
theorem Grammar.exists_name {segment : Text} {cache : CacheStats} (grammar : Grammar segment cache)
    (role : PolicyRole) :
    ∃ spaces body rest,
      segment = spaces ++ (cacheKeyword.toList ++
        (body ++ ((cache.policy role).kind.name.toList ++ rest))) ∧
      spaces.Blank ∧ BeforePolicy body ∧ (∀ c ∈ body.head?, Text.isSpace c = true) ∧
      (∀ c ∈ rest.head?, Text.isSpace c = true ∨ c = ':') ∧
      (':' ∈ rest ↔ role = .admission) := by
  obtain ⟨whole, trimmed, bodyGrammar⟩ := grammar
  obtain ⟨spaces, after, blankSpaces, blankAfter, cut⟩ := trimmed.cut
  have opensWhole := bodyGrammar.separated.opens
  obtain ⟨values, admissionText, evictionText, admission, eviction, spelling, admits, evicts,
    rfl⟩ := bodyGrammar_iff_spelling.mp bodyGrammar
  have opensBody {body named : Text} (introduces : BeforePolicy body)
      (shape : whole = body ++ named) : ∀ c ∈ body.head?, Text.isSpace c = true := by
    rwa [shape, List.head?_append_of_ne_nil body introduces.ne_nil] at opensWhole
  cases role with
  | admission =>
      obtain ⟨blanks, rest, starts, blank, opens⟩ := admits.exists_name
      obtain ⟨body, introduces, shape⟩ := spelling.exists_before_admission blank
        (PolicyKind.not_separated_name_append _ rest) starts
      have admitted : (ofValues values admission eviction).policy .admission = admission := rfl
      refine ⟨spaces, body, rest ++ ':' :: (evictionText ++ after), ?_, blankSpaces, introduces,
        opensBody introduces shape, ?_, by simp⟩
      · rw [cut, shape, admitted]
        simp
      · intro c first
        rcases Text.mem_head?_append first with here | behind
        · exact .inl (opens c here)
        · exact .inr (Option.some.inj behind).symm
  | eviction =>
      obtain ⟨blanks, rest, starts, blank, opens⟩ := evicts.exists_name
      obtain ⟨body, introduces, shape⟩ := spelling.exists_before_eviction blank starts
      have evicted : (ofValues values admission eviction).policy .eviction = eviction := rfl
      have noColon : ':' ∉ rest ++ after := by
        have noColonText := spelling.colon_not_mem_evictionText
        rw [starts] at noColonText
        simp only [List.mem_append, not_or] at noColonText ⊢
        exact ⟨noColonText.2.2, blankAfter.not_mem (by decide)⟩
      refine ⟨spaces, body, rest ++ after, ?_, blankSpaces, introduces,
        opensBody introduces shape, ?_, iff_of_false noColon (by simp)⟩
      · rw [cut, shape, evicted]
        simp
      · intro c first
        rcases Text.mem_head?_append first with here | behind
        · exact .inl (opens c here)
        · exact .inl (blankAfter c (List.mem_of_mem_head? behind))

end CacheStats

end CacheRuns
