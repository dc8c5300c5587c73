import StencilForge.DataArray
import StencilForge.Json

/-!
# Drawing

A drawing is a list of commands to objects; each has arguments and keywords and gives a new object.
-/

namespace StencilForge.Drawing

inductive Item where
  | nothing
  | truth (b : Bool)
  | int (n : Int)
  | real (x : Float)
  | text (s : String)
  | list (xs : List Item)
  | table (kvs : List (String × Item))
  | array (a : MaskedArray)
  | object (path : String)
  | callable (kind : String)
  | arrow (xs ys zs : Ints)

abbrev Keywords := List (String × Item)

structure Command where
  path : String
  args : List Item := []
  keywords : Keywords := []

abbrev Draw (α : Type) := Action (List Command) α

def call (path : String) (args : List Item := []) (keywords : Keywords := []) : Draw String := do
  modify (· ++ [⟨path, args, keywords⟩])
  return path ++ "()"

def tell (path : String) (args : List Item := []) (keywords : Keywords := []) : Draw Unit := do
  let _ ← call path args keywords

namespace Keywords

def get? (k : Keywords) (name : String) : Option Item := k.lookup name

def getD (k : Keywords) (name : String) (v : Item) : Item := (get? k name).getD v

def defaults (k added : Keywords) : Keywords := k ++ added.filter fun (n, _) => (get? k n).isNone

def join (fixed given : Keywords) : Outcome Keywords :=
  if fixed.any fun (n, _) => (get? given n).isSome then raise .mistyped else .ok (fixed ++ given)

end Keywords

/-! ### Parameters -/

structure Parameter where
  name : String
  value? : Option Item := none

/-- What is left over becomes keywords, if the function takes any. -/
def bind (parameters : List Parameter) (takesMore : Bool) (args : List Item) (named : Keywords) :
    Outcome (Keywords × Keywords) := do
  if parameters.length < args.length then raise .mistyped
  let first := (parameters.zip args).map fun (p, v) => (p.name, v)
  let own := named.filter fun (n, _) => parameters.any (·.name == n)
  let rest := named.filter fun (n, _) => !parameters.any (·.name == n)
  if !takesMore && !rest.isEmpty then raise .mistyped
  let given ← Keywords.join first own
  let values ← parameters.mapM fun p => match Keywords.get? given p.name, p.value? with
    | some v, _ | none, some v => .ok (p.name, v)
    | none, none => raise .mistyped
  return (values, rest)

def Item.isTrue : Item → Bool
  | .nothing => false
  | .truth b => b
  | .int n => n != 0
  | .real x => x != 0
  | .text s => s != ""
  | .list xs => !xs.isEmpty
  | .table kvs => !kvs.isEmpty
  | _ => true

/-!
## Drawing — colours

Red, green and blue parts and an opacity, between 0 and 1, given by hexadecimal digits, a name, a shade of grey, or
parts.
-/

structure Colour where
  red : Float
  green : Float
  blue : Float
  opacity : Float := 1
  deriving Inhabited

namespace Colour

/-- Lines of names, each before its hexadecimal digits. -/
def table (lines : Strings) : List (String × String) := lines.flatMap fun l => pairUp (l.splitOn " ")
where
  pairUp : Strings → List (String × String)
    | n :: h :: r => (n, h) :: pairUp r
    | _ => []

def named : List (String × String) := table
  ["aliceblue f0f8ff antiquewhite faebd7 aqua 00ffff aquamarine 7fffd4 azure f0ffff beige f5f5dc bisque ffe4c4",
   "black 000000 blanchedalmond ffebcd blue 0000ff blueviolet 8a2be2 brown a52a2a burlywood deb887",
   "cadetblue 5f9ea0 chartreuse 7fff00 chocolate d2691e coral ff7f50 cornflowerblue 6495ed cornsilk fff8dc",
   "crimson dc143c cyan 00ffff darkblue 00008b darkcyan 008b8b darkgoldenrod b8860b darkgray a9a9a9",
   "darkgreen 006400 darkkhaki bdb76b darkmagenta 8b008b darkolivegreen 556b2f darkorange ff8c00 darkorchid 9932cc",
   "darkred 8b0000 darksalmon e9967a darkseagreen 8fbc8f darkslateblue 483d8b darkslategray 2f4f4f",
   "darkturquoise 00ced1 darkviolet 9400d3 deeppink ff1493 deepskyblue 00bfff dimgray 696969 dodgerblue 1e90ff",
   "firebrick b22222 floralwhite fffaf0 forestgreen 228b22 fuchsia ff00ff gainsboro dcdcdc ghostwhite f8f8ff",
   "gold ffd700 goldenrod daa520 gray 808080 green 008000 greenyellow adff2f honeydew f0fff0 hotpink ff69b4",
   "indianred cd5c5c indigo 4b0082 ivory fffff0 khaki f0e68c lavender e6e6fa lavenderblush fff0f5 lawngreen 7cfc00",
   "lemonchiffon fffacd lightblue add8e6 lightcoral f08080 lightcyan e0ffff lightgoldenrodyellow fafad2",
   "lightgray d3d3d3 lightgreen 90ee90 lightpink ffb6c1 lightsalmon ffa07a lightseagreen 20b2aa",
   "lightskyblue 87cefa lightslategray 778899 lightsteelblue b0c4de lightyellow ffffe0 lime 00ff00",
   "limegreen 32cd32 linen faf0e6 magenta ff00ff maroon 800000 mediumaquamarine 66cdaa mediumblue 0000cd",
   "mediumorchid ba55d3 mediumpurple 9370db mediumseagreen 3cb371 mediumslateblue 7b68ee mediumspringgreen 00fa9a",
   "mediumturquoise 48d1cc mediumvioletred c71585 midnightblue 191970 mintcream f5fffa mistyrose ffe4e1",
   "moccasin ffe4b5 navajowhite ffdead navy 000080 oldlace fdf5e6 olive 808000 olivedrab 6b8e23 orange ffa500",
   "orangered ff4500 orchid da70d6 palegoldenrod eee8aa palegreen 98fb98 paleturquoise afeeee palevioletred db7093",
   "papayawhip ffefd5 peachpuff ffdab9 peru cd853f pink ffc0cb plum dda0dd powderblue b0e0e6 purple 800080",
   "rebeccapurple 663399 red ff0000 rosybrown bc8f8f royalblue 4169e1 saddlebrown 8b4513 salmon fa8072",
   "sandybrown f4a460 seagreen 2e8b57 seashell fff5ee sienna a0522d silver c0c0c0 skyblue 87ceeb slateblue 6a5acd",
   "slategray 708090 snow fffafa springgreen 00ff7f steelblue 4682b4 tan d2b48c teal 008080 thistle d8bfd8",
   "tomato ff6347 turquoise 40e0d0 violet ee82ee wheat f5deb3 white ffffff whitesmoke f5f5f5 yellow ffff00",
   "yellowgreen 9acd32"]

def cycle : List (String × String) := table
  ["blue 1f77b4 orange ff7f0e green 2ca02c red d62728 purple 9467bd brown 8c564b pink e377c2 gray 7f7f7f",
   "olive bcbd22 cyan 17becf"]

def ofLetter? : Char → Option Colour
  | 'b' => some ⟨0, 0, 1, 1⟩
  | 'g' => some ⟨0, 0.5, 0, 1⟩
  | 'r' => some ⟨1, 0, 0, 1⟩
  | 'c' => some ⟨0, 0.75, 0.75, 1⟩
  | 'm' => some ⟨0.75, 0, 0.75, 1⟩
  | 'y' => some ⟨0.75, 0.75, 0, 1⟩
  | 'k' => some ⟨0, 0, 0, 1⟩
  | 'w' => some ⟨1, 1, 1, 1⟩
  | _ => none

/-- One or two digits for each part, with or without an opacity. -/
def ofHex? (cs : Chars) : Option Colour := do
  let ds ← cs.mapM Json.hexValue?
  let part := fun (a b : Nat) => (Number.ofInt (a * 16 + b)).toFloat / 255
  match ds with
  | [a, b, c, d, e, f] => return ⟨part a b, part c d, part e f, 1⟩
  | [a, b, c, d, e, f, g, h] => return ⟨part a b, part c d, part e f, part g h⟩
  | [r, g, b] => return ⟨part r r, part g g, part b b, 1⟩
  | [r, g, b, a] => return ⟨part r r, part g g, part b b, part a a⟩
  | _ => none

def ofGrey? (s : String) : Option Colour := do
  let s := if s.startsWith "." then "0" ++ s else s
  let x ← match Json.parse s with
    | .ok (.int n) => some (Number.ofInt n).toFloat
    | .ok (.float x) => some x
    | _ => none
  if 0 ≤ x && x ≤ 1 then return ⟨x, x, x, 1⟩ else none

def ofText (s : String) : Outcome Colour :=
  let find := fun (t : String) =>
    let t := t.replace "grey" "gray"
    ((if t.startsWith "tab:" then cycle.lookup (t.drop 4).toString else named.lookup t)).bind (ofHex? ·.toList)
  let nth := match s.toList with
    | 'C' :: d :: r => if (d :: r).all Char.isDigit then
        (cycle[Json.natOf (d :: r) % 10]?).bind fun (_, h) => ofHex? h.toList
      else none
    | _ => none
  let letter := match s.toList with
    | [c] => ofLetter? c
    | _ => none
  let hex := match s.toList with
    | '#' :: r => ofHex? r
    | _ => none
  let none_ := given (s.toLower == "none") (⟨0, 0, 0, 0⟩ : Colour)
  present .invalid (none_ <|> nth <|> letter <|> find s <|> (if s.length == 1 then none else find s.toLower) <|> hex <|>
    ofGrey? s)

def ofItem : Item → Outcome Colour
  | .text s => ofText s
  | .list xs => do
    let part := fun
      | .int n => .ok (Number.ofInt n).toFloat
      | .real x => .ok x
      | _ => raise .invalid
    let ps ← xs.mapM part
    if ps.any fun x => !(0 ≤ x && x ≤ 1) then raise .invalid
    match ps with
    | [r, g, b] => return ⟨r, g, b, 1⟩
    | [r, g, b, a] => return ⟨r, g, b, a⟩
    | _ => raise .invalid
  | _ => raise .invalid

end Colour

end StencilForge.Drawing
