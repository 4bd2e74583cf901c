/-
Module: CacheRuns.Chart.Svg
Purpose: The text of a chart as scalable vector graphics.
Main exports: Svg.escaped, Svg.points, Chart.svg
-/
import CacheRuns.Chart.Basic

namespace CacheRuns

namespace Svg

/-!
A drawing is one `svg` element, in the form in which a page embeds it.  A text is
escaped, so that no label can end the element it stands in.
-/

/-- A character as it stands in a text or in an attribute. -/
def escapedChar (c : Char) : List Char :=
  match c with
  | '&' => "&amp;".toList
  | '<' => "&lt;".toList
  | '>' => "&gt;".toList
  | '"' => "&quot;".toList
  | '\'' => "&apos;".toList
  | c => [c]

/-- A text without the characters that end texts and attributes. -/
def escaped (text : String) : String :=
  String.ofList (text.toList.flatMap escapedChar)

/-- The attributes of an element. -/
def attributes (pairs : List (String × String)) : String :=
  String.join (pairs.map fun (name, value) => " " ++ name ++ "=\"" ++ escaped value ++ "\"")

/-- An element without content. -/
def leaf (tag : String) (pairs : List (String × String)) : String :=
  "<" ++ tag ++ attributes pairs ++ "/>"

/-- An element around a text. -/
def around (tag : String) (pairs : List (String × String)) (text : String) : String :=
  "<" ++ tag ++ attributes pairs ++ ">" ++ escaped text ++ "</" ++ tag ++ ">"

/-- The coordinates of pixels. -/
def points (pixels : List Pixel) : String :=
  String.intercalate " " (pixels.map fun pixel => pixel.x.repr ++ "," ++ pixel.y.repr)

/-- A line through pixels. -/
def polyline (color width opacity : String) (pixels : List Pixel) : String :=
  leaf "polyline" [("fill", "none"), ("stroke", color), ("stroke-width", width),
    ("opacity", opacity), ("points", points pixels)]

/-- A text that is centered at a place. -/
def centered (x y : Int) (more : List (String × String)) (text : String) : String :=
  around "text" ([("x", x.repr), ("y", y.repr), ("text-anchor", "middle"),
    ("font-family", "sans-serif"), ("font-size", "12")] ++ more) text

end Svg

namespace Chart

/-- The descriptions of the axes, one below the chart and one upright to its
left. -/
def axisTexts (chart : Chart) : List String :=
  let middleX : Int := chart.canvas.width / 2
  let middleY : Int := chart.canvas.height / 2
  let turn := "rotate(-90 15 " ++ middleY.repr ++ ")"
  (chart.xLabel.map (Svg.centered middleX (chart.canvas.height - 15) [])).toList ++
    (chart.yLabel.map (Svg.centered 15 middleY [("transform", turn)])).toList

/-- An entry of the legend: a piece of its line and its text. -/
def legendTexts (left top : Int) (entry : LegendEntry) : List String :=
  [Svg.polyline entry.color "2" "1" [⟨left, top⟩, ⟨left + 20, top⟩],
    Svg.around "text" [("x", (left + 30).repr), ("y", (top + 4).repr),
      ("font-family", "sans-serif"), ("font-size", "12")] entry.text]

/-- The legend, at the lower right, one entry below the other. -/
def legendLines (chart : Chart) : List String :=
  let left : Int := chart.canvas.width - 160
  let top : Int := chart.canvas.height - 60 - 20 * chart.legend.length
  chart.legend.zipIdx.flatMap fun (entry, index) => legendTexts left (top + 20 * index) entry

/-- The elements of a chart, from the background upwards. -/
def elements (chart : Chart) : List String :=
  [Svg.leaf "rect" [("width", chart.canvas.width.repr), ("height", chart.canvas.height.repr),
      ("fill", "#FFFFFF")]] ++
    axisTexts chart ++
    (chart.reference.map fun (first, last) =>
      Svg.polyline "#000000" "1" "0.4" [first, last]).toList ++
    chart.lines.map (fun line => Svg.polyline line.color "2" "1" line.points) ++
    legendLines chart

/-- The text of a chart. -/
def svg (chart : Chart) : String :=
  let width := chart.canvas.width.repr
  let height := chart.canvas.height.repr
  let start := "<svg" ++ Svg.attributes [("width", width), ("height", height),
    ("viewBox", "0 0 " ++ width ++ " " ++ height)] ++ ">"
  String.intercalate "\n" ([start] ++ elements chart ++ ["</svg>"]) ++ "\n"

end Chart

end CacheRuns
