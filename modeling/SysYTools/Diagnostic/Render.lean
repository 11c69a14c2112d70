import SysYTools.Diagnostic.Basic
import SysYTools.Text.Lines

/-!
Diagnostics as printed text: a head line, and for each label its place, the line of the program and
marks under the text that is meant. What follows the first line of a message becomes notes.
-/

namespace SysYTools

namespace Diagnostic

structure Palette where
  isColored : Bool

namespace Palette

private def code (palette : Palette) (digits : String) : String := if palette.isColored then s!"\x1b[{digits}m" else ""

def paint (palette : Palette) (digits text : String) : String := palette.code digits ++ text ++ palette.code "0"

def severityDigits : Severity → String
  | .error => "1;31"
  | .warning => "1;33"
  | .hint => "1;36"

def bold (palette : Palette) (text : String) : String := palette.paint "1" text

def frame (palette : Palette) (text : String) : String := palette.paint "1;34" text

end Palette

def padded (number : Int) : String :=
  let digits := toString number
  String.ofList (List.replicate (4 - digits.length) ' ') ++ digits

def marks (span : Span) : String × String :=
  (String.ofList (List.replicate (span.startColumn - 1).toNat ' '),
    String.ofList (List.replicate (max 1 (span.endColumn + 1 - span.startColumn)).toNat '^'))

def labelLines (palette : Palette) (severity : Severity) (source : List Text) (label : Label) :
    List String :=
  let span := label.span
  let color := Palette.severityDigits severity
  let bar := palette.frame "   |"
  let place := ["  " ++ palette.frame "-->" ++ " " ++ span.label, "  " ++ bar]
  let sourceLine :=
    if span.startLine < 1 then []
    else
      match source[(span.startLine - 1).toNat]? with
      | some line =>
        let gutter := palette.frame (padded span.startLine ++ " |")
        [s!"  {gutter} {String.ofList line}"]
      | none => []
  let markLine :=
    if span.startLine = span.endLine then
      let (padding, carets) := marks span
      [s!"  {bar} {padding}{palette.paint color carets}"]
    else []
  let remark :=
    if label.message.isEmpty then []
    else [s!"  {bar}   {palette.paint color label.message}"]
  place ++ sourceLine ++ markLine ++ remark

def headline (message : Text) : Text × Text := (message.takeWhile (· != '\n'), (message.dropWhile (· != '\n')).drop 1)

/-- A diagnostic as printed text. The lines of a file are asked for by its name. -/
def render (palette : Palette) (sourceLines : String → Except Fault (List Text))
    (diagnostic : Diagnostic) : Except Fault String := do
  let (head, details) := headline diagnostic.message.toList
  let color := Palette.severityDigits diagnostic.severity
  let title := s!"{diagnostic.severity.name}[{diagnostic.code.name}]"
  let headLine := palette.paint color title ++ palette.bold s!": {String.ofList head}"
  let labels ← diagnostic.labels.mapM fun label => do
    return labelLines palette diagnostic.severity (← sourceLines label.span.file) label
  let sign := palette.frame "="
  let notes := details.strip.printedLines.map fun note => s!"  {sign} {String.ofList note}"
  return "\n".intercalate (headLine :: labels.flatten ++ notes)

end Diagnostic

end SysYTools
