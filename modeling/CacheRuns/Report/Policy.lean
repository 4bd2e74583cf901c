/-
Module: CacheRuns.Report.Policy
Purpose: The admission and eviction policies of a cache: their names, and what a
  report says about them.
Main exports:
  PolicyKind, PolicyKind.all, PolicyKind.ofName?, PolicyLayout, PolicyState,
  Policy, Policy.Consistent, Policy.read, Policy.text
-/
import CacheRuns.Report.Fields
import CacheRuns.Number.Style

namespace CacheRuns

/-!
A policy is reported as its name and the fields of its layout.  Several
policies share a layout, so the state that is read does not tell which of them
it belongs to; the kind does.
-/

/-- The policies that the emulator reports on. -/
inductive PolicyKind where
  | lru
  | fifo
  | costLru
  | s4lru
  | secondHit
  | secondHitRot
  | null
  | size
  | prob
  | probSize
deriving Repr, DecidableEq

/-- The fields that follow the name of a policy. -/
inductive PolicyLayout where
  /-- The size and the age of the oldest file. -/
  | lru
  /-- The fill of the filter that counts first hits. -/
  | secondHitCounting
  /-- The size of all the segments. -/
  | segmented
  /-- No fields. -/
  | marker
deriving Repr, DecidableEq

/-- What a report says about the state of a policy. -/
inductive PolicyState where
  | lru (size : UInt64) (oldestFileAge : Float)
  | secondHitCounting (fill : Float)
  | segmented (size : UInt64)
  | marker
deriving Repr, DecidableEq

/-- A policy as reported. -/
structure Policy where
  kind : PolicyKind
  state : PolicyState
deriving Repr, DecidableEq

namespace PolicyKind

/-- All the policies. -/
def all : List PolicyKind :=
  [.lru, .fifo, .costLru, .s4lru, .secondHit, .secondHitRot, .null, .size, .prob, .probSize]

/-- The name by which a policy is reported. -/
def name : PolicyKind → String
  | .lru => "lru"
  | .fifo => "fifo"
  | .costLru => "cost_lru"
  | .s4lru => "s4lru"
  | .secondHit => "2hc"
  | .secondHitRot => "2hc_rot"
  | .null => "null"
  | .size => "size"
  | .prob => "prob"
  | .probSize => "prob_size"

/-- The layout of the fields of a policy. -/
def layout : PolicyKind → PolicyLayout
  | .lru | .fifo | .costLru => .lru
  | .s4lru => .segmented
  | .secondHit | .secondHitRot => .secondHitCounting
  | .null | .size | .prob | .probSize => .marker

/-- The policy of a name. -/
def ofName? (name : Text) : Option PolicyKind :=
  all.find? fun kind => kind.name.toList == name

/-- The name found is the name of the policy. -/
theorem name_of_ofName?_eq_some {name : Text} {kind : PolicyKind}
    (found : ofName? name = some kind) : kind.name.toList = name := by
  simpa using List.find?_some found

/-- Every policy is found by its name, so no two share one. -/
theorem ofName?_name (kind : PolicyKind) : ofName? kind.name.toList = some kind := by
  cases kind <;> decide

end PolicyKind

namespace PolicyLayout

/-- The fields of a layout, in order. -/
def fields : PolicyLayout → List ReportField
  | .lru => [.size, .oldestFileAge]
  | .secondHitCounting => [.fillPercentage]
  | .segmented => [.size]
  | .marker => []

/-- The state that the values of the fields make up. -/
def state : (layout : PolicyLayout) → Values layout.fields → PolicyState
  | .lru, (size, oldestFileAge, ()) => .lru size oldestFileAge
  | .secondHitCounting, (fill, ()) => .secondHitCounting fill
  | .segmented, (size, ()) => .segmented size
  | .marker, () => .marker

end PolicyLayout

namespace PolicyState

/-- The layout that a state is written in. -/
def layout : PolicyState → PolicyLayout
  | .lru _ _ => .lru
  | .secondHitCounting _ => .secondHitCounting
  | .segmented _ => .segmented
  | .marker => .marker

/-- Values are shown with the fewest digits that read back. -/
def valueStyle : DecimalStyle := ⟨none, false⟩

/-- The text of a state. -/
def text : PolicyState → String
  | .lru size oldestFileAge =>
    "size=" ++ size.toNat.repr ++ " oldest_file_age=" ++ valueStyle.text oldestFileAge
  | .secondHitCounting fill => "fill=" ++ valueStyle.text fill
  | .segmented size => "size=" ++ size.toNat.repr
  | .marker => "-"

end PolicyState

/-- A layout makes states of its own kind only. -/
@[simp] theorem PolicyLayout.layout_state (layout : PolicyLayout) (values : Values layout.fields) :
    (layout.state values).layout = layout := by
  cases layout <;> rfl

namespace Policy

/-- The state has the layout of the kind. -/
def Consistent (policy : Policy) : Prop :=
  policy.state.layout = policy.kind.layout

/-- The text of a policy: its name and its state. -/
def text (policy : Policy) : String :=
  policy.kind.name ++ " " ++ policy.state.text

/-- Reads a policy: a name and the fields of its layout. -/
def read (t : Text) : Except LineError Policy :=
  let t := Text.trim t
  match Text.headWord t with
  | [] => .error .emptySegment
  | name =>
    match PolicyKind.ofName? name with
    | none => .error (.unknownPolicy (String.ofList name))
    | some kind => do
      let values ← readAllFields kind.layout.fields (Text.afterWord t)
      .ok ⟨kind, kind.layout.state values⟩

end Policy

end CacheRuns
