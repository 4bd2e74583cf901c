/-
Module: CacheRuns.Chart.Canvas
Purpose: Where on a canvas a value is drawn.
Main exports: Pixel, PixelSpan, AxisRange.pixel, Canvas, Canvas.place
-/
import CacheRuns.Chart.Range
import CacheRuns.Series

namespace CacheRuns

/-- A place on a canvas, in pixels to the right and downwards. -/
structure Pixel where
  x : Int
  y : Int
deriving Repr, DecidableEq

/-- The pixels at the two ends of an axis. -/
structure PixelSpan where
  first : Int
  last : Int
deriving Repr, DecidableEq

/-- The distance from the first pixel to the last, negative if the axis runs
towards smaller numbers. -/
def PixelSpan.length (span : PixelSpan) : Int :=
  span.last - span.first

namespace AxisRange

/-!
A value is placed by its share of the range.  The place is rounded towards the
beginning of the axis, after a small allowance that keeps a value which is meant
to lie on a pixel from falling short of it.  A share that is infinite, or too
large to be counted in pixels, leads to one of the ends, and what is no number to
the beginning.
-/

/-- The allowance that is given before rounding, in pixels. -/
def allowance : Float := 0.001

/-- How far from the beginning a share of an axis of some pixels is, if it can be
counted. -/
def offset? (length : Int) (share : Float) : Option Int :=
  let distance := Float.ofInt length * share
  if 0 < length then Binary64.floor? (distance + allowance)
  else Binary64.ceiling? (distance - allowance)

/-- The pixel of a value.  On a range without extent every value has the same
pixel. -/
def pixel (range : AxisRange) (span : PixelSpan) (value : Float) : Int :=
  if range.first == range.last then
    span.length.tdiv 2
  else
    let share := (value - range.first) / (range.last - range.first)
    match offset? span.length share with
    | some offset => span.first + offset
    | none => if 0.0 < share then span.last else span.first

end AxisRange

/-- The size of a drawing. -/
structure Canvas where
  width : Nat
  height : Nat
deriving Repr, DecidableEq

namespace Canvas

/-!
The plotting area leaves ten pixels free on all sides, besides forty below it and
fifty to its left for the descriptions of the axes.
-/

/-- The pixels of the horizontal axis. -/
def xSpan (canvas : Canvas) : PixelSpan :=
  ⟨60, canvas.width - 11⟩

/-- The pixels of the vertical axis, which runs upwards. -/
def ySpan (canvas : Canvas) : PixelSpan :=
  ⟨canvas.height - 51, 10⟩

/-- The number between two bounds that is nearest to a number; the lower bound
counts if there is none. -/
def clamp (lower upper n : Int) : Int :=
  let below := if upper < n then upper else n
  if below < lower then lower else below

/-- What lies outside the plotting area is moved to its border. -/
def keepInside (canvas : Canvas) (pixel : Pixel) : Pixel :=
  ⟨clamp 60 (canvas.width - 10) pixel.x, clamp 10 (canvas.height - 50) pixel.y⟩

/-- The pixel of a point. -/
def place (canvas : Canvas) (xRange yRange : AxisRange) (point : Point) : Pixel :=
  canvas.keepInside ⟨xRange.pixel canvas.xSpan point.x, yRange.pixel canvas.ySpan point.y⟩

end Canvas

end CacheRuns
