/-
StepTone.Chart.Html — charts as a page that a browser shows.

A page leaves the drawing to the script library echarts, which it loads from beside it. Every
chart is an element of its own and a call that hands its options to the library.

* `Diagram.options` — a chart as the library wants it described.
* `Page.html` — the text of the page, unless a number of it cannot be written.
-/
import StepTone.Chart
import StepTone.JsonValue

namespace StepTone.Chart

/-- A line among the options of a chart. -/
def Series.options (s : Series) : JsonValue :=
  .obj [("name", .str s.name), ("type", .str "line"), ("data", .arr (s.points.map .real))]

/-- The options of a chart. -/
def Diagram.options (d : Diagram) : JsonValue :=
  .obj [("title", .obj [("text", .str d.title), ("subtext", .str d.subtitle)]),
    ("legend", .obj []),
    ("xAxis", .obj [("name", .str d.xName), ("data", .arr (d.rows.map .str))]),
    ("yAxis", .obj [("name", .str d.yName)]),
    ("series", .arr (d.series.map (·.options)))]

/-- A chart as an element of a page, with the call that draws it there. -/
def Diagram.html (d : Diagram) (place : Nat) : String :=
  let id := "chart" ++ toString place
  "<div id=\"" ++ id ++ "\" style=\"width:" ++ d.width ++ ";height:" ++ d.height ++ "\"></div>\n"
    ++ "<script>echarts.init(document.getElementById(\"" ++ id ++ "\")).setOption("
    ++ d.options.compact ++ ");</script>\n"

/-- The text of a page. -/
def Page.html (p : Page) : Except Fault String :=
  match (JsonValue.arr (p.charts.map (·.options))).firstUndefined? with
  | some x => .error (.plain (JsonValue.undefinedText x))
  | none => .ok ("<!DOCTYPE html>\n<html>\n<head><meta charset=\"utf-8\"><title>" ++ p.title
      ++ "</title><script src=\"echarts.min.js\"></script></head>\n<body>\n"
      ++ String.join (p.charts.zipIdx.map fun (d, place) => d.html place)
      ++ "</body>\n</html>\n")

end StepTone.Chart
