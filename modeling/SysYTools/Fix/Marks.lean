import SysYTools.Fix.Request
import SysYTools.Text.Bracket

/-!
Fixes for punctuation: braces around an initializer, a missing semicolon and a missing bracket.
-/

namespace SysYTools

namespace Fix

private def inner (text : Text) : Text := (text.drop 1).dropLast

private def firstElement (text : Text) : Text :=
  match (inner text).splitCommas with
  | (c :: rest) :: _ => c :: rest
  | _ => ['0']

def reshapeInitializer : Resolver := fun request =>
  let text := request.text.strip
  let opens := text.head? == some '\x7b'
  let closes := text.getLast? == some '\x7d'
  .ok <|
    if text.isEmpty then none
    else
      match request.given "shape" MessagePart.initializerShape with
      | .text "array" =>
        if opens then none
        else some (request.edits "Wrap the initializer in braces"
          [{ range := request.range, newText := '\x7b' :: text ++ ['\x7d'] }])
      | .text "scalar" =>
        if opens && closes then
          some (request.edits "Use the first element as the initializer"
            [{ range := request.range, newText := firstElement text }])
        else none
      | _ => none

def insertSemicolon : Resolver := fun request =>
  .ok (some (request.edits "Add missing semicolon" [.insert request.range.stop [';']]))

def insertBracket : Resolver := fun request =>
  match request.given "expected" MessagePart.missingBracket with
  | .null => .ok none
  | .text bracket =>
    let place := if Text.hasPart "([\x7b".toList bracket.toList then request.range.start else request.range.stop
    .ok (some (request.edits s!"Insert missing '{bracket}'" [.insert place bracket.toList]))
  | _ => .error .wrongKind

end Fix

end SysYTools
