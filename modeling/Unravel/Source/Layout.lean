import Unravel.Source.Layout.Format
import Unravel.Source.Layout.Packed

/-! Readable layout of source text: one statement a line, two spaces a level, at most one blank
line in a row. -/

namespace Unravel.Source

/-- The first line break of a text, a line feed if there is none. -/
def lineBreak (t : Text) : Text :=
  match t.dropWhile fun c => !Layout.isNewline c with
  | 13 :: 10 :: _ => [13, 10]
  | c :: _ => [c]
  | [] => [10]

/-- Lays source text out; none if it is packed in a way that makes no sense. The indentation of the
first line becomes that of all lines, and the first line break the one that is used throughout. -/
def beautify? (code : Text) : Option Text := do
  let plain ← Layout.Packed.opened? code
  let margin := Text.toString (code.takeWhile fun c => c = 9 || c = 32)
  let state := (Layout.Format.run (Layout.lexemes plain) {}).2
  let text := Text.ofString (state.page.text margin)
  match lineBreak code with
  | [10] => return text
  | eol => return text.flatMap fun c => if c = 10 then eol else [c]

/-- Lays source text out; what cannot be laid out stays as it is. -/
def beautify (code : Text) : Text := (beautify? code).getD code

end Unravel.Source
