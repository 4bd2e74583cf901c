/-
Module: CacheRuns.Text.Control
Purpose: What can be read of a text that has control characters and escape
  sequences in it.
Main exports:
  ControlState, ControlState.next, Text.isLayout, Text.isVisible, Text.visible
-/
import CacheRuns.Text.Blank

namespace CacheRuns

/-!
Text that comes from a file can direct a terminal on which it is shown: by
control characters, and by sequences that begin with an escape character.  What
is visible of a text is what is left without both.

Escape sequences and control sequences end with a last character, which tells
what they do, commands with a bell, and strings with the byte of the string
terminator, even as a part of a character.  An escape character begins another
sequence wherever it stands, and a cancel or a substitute character ends any
sequence.  The string of a device begins with a header, in which that byte means
nothing: parameters, then intermediate characters, then a last character.  Where
one of these comes too late, the header is over, and the string has begun.

Control characters that lay out a text are visible outside sequences.  Inside an
escape sequence or a control sequence they are visible, too, and interrupt it:
all is read as text up to the next control character, at which the sequence goes
on.
-/

/-- The sequence in which a character stands. -/
inductive ControlState where
  /-- None. -/
  | outside
  /-- An escape sequence, of which only the escape character is known. -/
  | escape
  /-- An escape sequence with at least one intermediate character. -/
  | intermediate
  /-- A control sequence, which has parameters. -/
  | sequence
  /-- A command to the operating system. -/
  | command
  /-- The header of a string for a device, which has just begun. -/
  | header
  /-- A header with at least one parameter. -/
  | headerParameter
  /-- A header with at least one intermediate character. -/
  | headerIntermediate
  /-- A string for a device or a program. -/
  | string
deriving Repr, DecidableEq

namespace Text

/-- The character lies between two characters, both included. -/
def isBetween (first last c : Char) : Bool :=
  decide (first.toNat ≤ c.toNat) && decide (c.toNat ≤ last.toNat)

/-- The control characters that lay out a text: tab, line feed, form feed and
carriage return. -/
def isLayout (c : Char) : Bool :=
  let n := c.toNat
  n == 0x09 || n == 0x0A || n == 0x0C || n == 0x0D

/-- The characters that can be seen, or lay out those that can. -/
def isVisible (c : Char) : Bool :=
  isLayout c || (decide (0x20 ≤ c.toNat) && c.toNat != 0x7F)

/-- One of the bytes of the character is the one that ends a string. -/
def hasTerminator (c : Char) : Bool :=
  (String.utf8EncodeChar c).contains 0x9C

end Text

namespace ControlState

open Text

/-- The state after the character that follows an escape character. -/
def afterEscape (c : Char) : ControlState :=
  if c = '[' then .sequence
  else if c = ']' then .command
  else if c = 'P' then .header
  else if c = 'X' || c = '^' || c = '_' then .string
  else if isBetween ' ' '/' c then .intermediate
  else if isBetween '0' '~' c then .outside
  else .escape

/-- The state after the character that begins a header.  The characters from `<`
to `?` can only stand here. -/
def afterHeader (c : Char) : ControlState :=
  if isBetween ' ' '/' c then .headerIntermediate
  else if isBetween '0' '?' c then .headerParameter
  else if isBetween '@' '~' c then .string
  else .header

/-- The state after a character that follows a parameter of a header. -/
def afterParameter (c : Char) : ControlState :=
  if isBetween ' ' '/' c then .headerIntermediate
  else if isBetween '<' '~' c then .string
  else .headerParameter

/-- The state after a character that does not interrupt the sequence. -/
def next (state : ControlState) (c : Char) : ControlState :=
  if c.toNat = 0x1B then .escape
  else if c.toNat = 0x18 || c.toNat = 0x1A then .outside
  else
    match state with
    | .outside => .outside
    | .escape => afterEscape c
    | .intermediate => if isBetween '0' '~' c then .outside else .intermediate
    | .sequence => if isBetween '@' '~' c then .outside else .sequence
    | .command => if c.toNat = 0x07 then .outside else .command
    | .header => afterHeader c
    | .headerParameter => afterParameter c
    | .headerIntermediate => if isBetween '0' '~' c then .string else .headerIntermediate
    | .string => if hasTerminator c then .outside else .string

/-- Layout interrupts the sequence. -/
def isInterruptible : ControlState → Bool
  | .escape | .intermediate | .sequence => true
  | .outside | .command | .header | .headerParameter | .headerIntermediate | .string => false

end ControlState

namespace Text

/-- What is visible of a text that begins in a sequence.  A sequence that is
interrupted goes on at the next control character, unless a character beyond
ASCII comes first: then it is forgotten. -/
def visibleFrom (state : ControlState) (interrupted : Bool) : Text → Text
  | [] => []
  | c :: t =>
    if interrupted && isVisible c then
      if c.toNat < 0x80 then c :: visibleFrom state true t
      else c :: visibleFrom .outside false t
    else if state = .outside && isVisible c then c :: visibleFrom .outside false t
    else if state.isInterruptible && isLayout c then c :: visibleFrom state true t
    else visibleFrom (state.next c) false t

/-- What is visible of a text. -/
def visible (t : Text) : Text :=
  visibleFrom .outside false t

end Text

end CacheRuns
