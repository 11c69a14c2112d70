import SysYTools.Text.Basic

/-!
Two ways to cut a text into lines. A document has lines that end at a line feed and at nothing else, so
that a carriage return is an ordinary character. Printed text is cut at every line boundary of the
Unicode standard.
-/

namespace SysYTools

/-- The characters that end a printed line. -/
def isLineBoundary (c : Char) : Bool :=
  let code := c.toNat
  (0xa ≤ code && code ≤ 0xd) || (0x1c ≤ code && code ≤ 0x1e) || code == 0x85 || code == 0x2028 ||
    code == 0x2029

namespace Text

/-- The lines of a document, without their line feeds. There is at least one, which may be empty. -/
def lines : Text → List Text
  | [] => [[]]
  | c :: rest =>
    if c = '\n' then
      [] :: lines rest
    else
      match lines rest with
      | [] => [[c]]
      | line :: more => (c :: line) :: more

/-- The printed lines, each with the boundary that ends it. A boundary at the end of the text opens no
further line, and a carriage return before a line feed is one boundary with it. -/
def boundedLines : Text → List (Text × Text)
  | [] => []
  | '\r' :: '\n' :: rest => ([], ['\r', '\n']) :: boundedLines rest
  | c :: rest =>
    if isLineBoundary c then
      ([], [c]) :: boundedLines rest
    else
      match boundedLines rest with
      | [] => [([c], [])]
      | (line, boundary) :: more => (c :: line, boundary) :: more

def printedLines (text : Text) : List Text := text.boundedLines.map (·.1)

/-- Every carriage return, with a line feed after it or without, becomes one line feed. -/
def unifyFeeds : Text → Text
  | [] => []
  | '\r' :: '\n' :: rest => '\n' :: unifyFeeds rest
  | c :: rest => (if c = '\r' then '\n' else c) :: unifyFeeds rest

end Text

end SysYTools
