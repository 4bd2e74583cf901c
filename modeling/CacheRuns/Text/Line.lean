/-
Module: CacheRuns.Text.Line
Purpose: The lines of a file and the text on a line.
Main exports: Bytes, Bytes.cutLines, Bytes.lines, Bytes.text?
-/
import CacheRuns.Text.Blank

namespace CacheRuns

/-- The content of a file. -/
abbrev Bytes := List UInt8

namespace Bytes

/-!
A line ends with a line feed, and a carriage return just before it belongs to
the end of the line.  What follows the last line feed is a line if it is not
empty, and keeps all its bytes.
-/

/-- The byte that ends a line. -/
def lineFeed : UInt8 := 0x0A

/-- The byte that may stand before a line feed. -/
def carriageReturn : UInt8 := 0x0D

/-- Puts a byte before a content that is already cut into ended lines and a last
one. -/
def addByte (byte : UInt8) (cut : List Bytes × Bytes) : List Bytes × Bytes :=
  if byte = lineFeed then
    ([] :: cut.1, cut.2)
  else
    match cut.1 with
    | [] => ([], byte :: cut.2)
    | line :: ended => ((byte :: line) :: ended, cut.2)

/-- The lines that end with a line feed, without it, and what follows the last
of them. -/
def cutLines (content : Bytes) : List Bytes × Bytes :=
  content.foldr addByte ([], [])

/-- A line without the one carriage return at its end. -/
def dropReturn (line : Bytes) : Bytes :=
  if line.getLast? = some carriageReturn then line.dropLast else line

/-- The lines of a file. -/
def lines (content : Bytes) : List Bytes :=
  let (ended, last) := cutLines content
  ended.map dropReturn ++ if last.isEmpty then [] else [last]

/-- The text that the bytes encode in UTF-8, if they encode one. -/
def text? (line : Bytes) : Option Text :=
  (String.fromUTF8? line.toByteArray).map String.toList

@[simp] theorem cutLines_nil : cutLines [] = ([], []) := rfl

@[simp] theorem cutLines_cons (byte : UInt8) (content : Bytes) :
    cutLines (byte :: content) = addByte byte (cutLines content) := rfl

end Bytes

end CacheRuns
