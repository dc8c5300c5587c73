import StencilForge.Json

/-!
# Lines of a text

Lines end at a line feed, a carriage return, both together, and at other characters that begin a new line or page.
-/

open String

namespace StencilForge

namespace Lines

def isEnd (c : Char) : Bool :=
  c == '\n' || c == '\r' || c == '\x0b' || c == '\x0c' || c == '\x1c' || c == '\x1d' || c == '\x1e' ||
    c == '\u0085' || c == '\u2028' || c == '\u2029'

/-- `line` is what was read of the current line, last character first. -/
def splitChars : Chars → Chars → List Chars
  | [], [] => []
  | line, [] => [line.reverse]
  | line, '\r' :: '\n' :: r => ('\n' :: '\r' :: line).reverse :: splitChars [] r
  | line, c :: r => if isEnd c then (c :: line).reverse :: splitChars [] r else splitChars (c :: line) r

def split (s : String) : Strings := (splitChars [] s.toList).map ofList

def trimEnd (s : String) : String := ofList (s.toList.reverse.dropWhile isEnd).reverse

def splitTrimmed (s : String) : Strings := (split s).map trimEnd

/-- An empty text counts as one line. -/
def indent (by_ s : String) : String := by_ ++ by_.intercalate (split s)

end Lines

/-!
## Literals

A text is put in single quotes, or in double quotes if it has single ones and no double ones.
-/

namespace Literal

def isShown (c : Char) : Bool :=
  let n := c.toNat
  0x20 ≤ n && n != 0x7f && !(0x80 ≤ n && n ≤ 0xa0) && n != 0xad

/-- At least `width` digits. -/
def hex (width n : Nat) : String :=
  let ds := Nat.toDigits 16 n
  ofList (.replicate (width - ds.length) '0' ++ ds)

def escape (quote : Char) (c : Char) : String :=
  if c == quote || c == '\\' then "\\" ++ c.toString
  else if c == '\n' then "\\n"
  else if c == '\r' then "\\r"
  else if c == '\t' then "\\t"
  else if isShown c then c.toString
  else if c.toNat < 0x100 then "\\x" ++ hex 2 c.toNat
  else "\\u" ++ hex 4 c.toNat

def string (s : String) : String :=
  let quote := if s.toList.contains '\'' && !s.toList.contains '"' then '"' else '\''
  quote.toString ++ join (s.toList.map (escape quote)) ++ quote.toString

def ofJson : Json → String :=
  Json.fold (fun
    | .null => "None"
    | .bool b => if b then "True" else "False"
    | .int n => toString n
    | .float x => Double.text x
    | .str s => string s
    | _ => "") (fun xs => "[" ++ ", ".intercalate xs ++ "]")
    fun ps => "\x7b" ++ ", ".intercalate (ps.map fun (k, v) => s!"{string k}: {v}") ++ "\x7d"

end Literal

/-!
## Templates

Gaps in curly brackets are filled by name; doubled brackets stand for themselves.  `!r` asks for the value as it is
written in a program, and a colon is followed by the width.
-/

namespace Template

def justify (side fill : Char) (width : Nat) (s : String) : String :=
  let gap := width - s.length
  let blank := fun n => ofList (.replicate n fill)
  match side with
  | '<' => s ++ blank gap
  | '>' => blank gap ++ s
  | _ => blank (gap / 2) ++ s ++ blank (gap - gap / 2)

/-- A fill and a side, a width, and a letter for the type. -/
def formatted (isText : Bool) (spec : Chars) (s : String) : Outcome String := do
  let isSide := fun c => c == '<' || c == '>' || c == '^'
  let (fill, side, rest) := match spec with
    | f :: c :: r => if isSide c then (f, c, r) else if isSide f then (' ', f, c :: r)
        else (' ', if isText then '<' else '>', spec)
    | [c] => if isSide c then (' ', c, []) else (' ', if isText then '<' else '>', [c])
    | [] => (' ', '<', [])
  let (fill, rest) := match rest with
    | '0' :: r => ('0', r)
    | r => (fill, r)
  let digits := rest.takeWhile Char.isDigit
  match rest.drop digits.length with
  | [] => return justify side fill (Json.natOf digits) s
  | ['s'] => if isText then return justify side fill (Json.natOf digits) s else raise .invalid
  | ['d'] => if isText then raise .invalid else return justify side fill (Json.natOf digits) s
  | _ => raise .invalid

def valueFor (values : List (String × Json)) (gap : Chars) : Outcome String := do
  let name := gap.takeWhile fun c => c != ':' && c != '!' && c != '.' && c != '['
  let rest := gap.drop name.length
  if name.all Char.isDigit then raise .outOfRange
  let some (_, v) := values.find? (·.1 == ofList name)
    | raise .missing
  let (isText, shown) := match v with
    | .str s => (true, s)
    | v => (false, Literal.ofJson v)
  match rest with
  | [] => return shown
  | ':' :: spec => formatted isText spec shown
  | '!' :: c :: r => do
    let shown ← if c == 'r' || c == 'a' then pure (Literal.ofJson v) else if c == 's' then pure shown
      else raise .invalid
    match r with
    | [] => return shown
    | ':' :: spec => formatted true spec shown
    | _ => raise .invalid
  | '.' :: _ => raise .noSuchPart
  | _ => raise .mistyped

/-- `fuel` bounds the number of characters. -/
def fillFrom (values : List (String × Json)) : Nat → Chars → Outcome Chars
  | 0, cs => .ok cs
  | _, [] => .ok []
  | fuel + 1, c :: r =>
    if c == '\x7b' then match r with
      | '\x7b' :: r => do return '\x7b' :: (← fillFrom values fuel r)
      | r => do
        let gap := r.takeWhile (· != '\x7d')
        if gap.length == r.length then raise .invalid
        let v ← valueFor values gap
        return v.toList ++ (← fillFrom values fuel (r.drop (gap.length + 1)))
    else if c == '\x7d' then match r with
      | '\x7d' :: r => do return '\x7d' :: (← fillFrom values fuel r)
      | _ => raise .invalid
    else do return c :: (← fillFrom values fuel r)

def fill (values : List (String × Json)) (s : String) : Outcome String := do
  return ofList (← fillFrom values (s.length + 1) s.toList)

end Template

end StencilForge
