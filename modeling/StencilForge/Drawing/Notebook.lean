import StencilForge.Drawing.Basic

/-!
# Drawing — notebooks

Animations are a video inside the page, a window of their own, or a picture that is drawn again and again.
-/

namespace StencilForge.Drawing

inductive Display where
  | video
  | window
  | picture
  deriving DecidableEq, Repr

def Display.ofMode? : String → Option Display
  | "video" => some .video
  | "window" => some .window
  | "image_update" => some .picture
  | _ => none

structure Notebook where
  mode : Item := .text "image_update"
  display? : Option Display := none
  running : Bool := true
  commands : List Command := []

structure Film where
  frames : Nat
  /-- The encoded video; without it the text that the encoder writes. -/
  video : String ⊕ String

abbrev Page (α : Type) := Action Notebook α

namespace Notebook

def tell (path : String) (args : List Item := []) (keywords : Keywords := []) : Page Unit :=
  modify fun n => { n with commands := n.commands ++ [⟨path, args, keywords⟩] }

def magic (s : String) : Page Unit := tell "ipython.magic" [.text s]

/-- An unknown mode is kept too, but shows nothing. -/
def choose (mode : Item) : Page Unit := do
  if !(← get).running then return
  modify fun n => { n with mode }
  let known := match mode with
    | .text s => Display.ofMode? s
    | _ => none
  let some d := known
    | raiseWith .general "Unknown mode. Available modes 'image_update', 'video' and 'window' "
  magic (if d = .window then "matplotlib qt" else "matplotlib inline")
  modify fun n => { n with display? := some d }

def activate : Page Unit := do
  if !(← get).running then return
  choose (.text "image_update")
  magic "config InlineBackend.rc = \x7b \x7d"
  magic "matplotlib inline"
  tell "rc" [.text "figure"] [("figsize", .list [.int 16, .int 6])]
  tell "init_printing"

def base64Chunk : Nats → Chars
  | [a] => [digit (a / 4), digit (a % 4 * 16), '=', '=']
  | [a, b] => [digit (a / 4), digit (a % 4 * 16 + b / 16), digit (b % 16 * 4), '=']
  | a :: b :: c :: _ => [digit (a / 4), digit (a % 4 * 16 + b / 16), digit (b % 16 * 4 + c / 64), digit (c % 64)]
  | [] => []
where
  digit n : Char := ("ABCDEFGHIJKLMNOPQRSTUVWXYZabcdefghijklmnopqrstuvwxyz0123456789+/".toList).getD n '='

def base64 : Nats → Chars
  | a :: b :: c :: r => base64Chunk [a, b, c] ++ base64 r
  | r => base64Chunk r

def encode (s : String) : String := .ofList (base64 (s.toUTF8.toList.map (·.toNat)))

def videoTag (data : String) : String :=
  "<video controls width=\"80%\">\n <source src=\"data:video/x-m4v;base64," ++ data ++
    "\" type=\"video/mp4\">\n Your browser does not support the video tag.\n</video>"

def encoderArguments : Item :=
  .list (["-vcodec", "libx264", "-pix_fmt", "yuv420p", "-profile:v", "baseline", "-level", "3.0"].map .text)

def showVideo (f : Film) (k : Keywords) : Page Item := do
  tell "close" [.object "animation._fig"]
  let data ← match f.video with
    | .inl data => pure data
    | .inr written => do
      tell "animation.save" [.text ".mp4"] [("fps", k.getD "fps" (.int 30)), ("extra_args", encoderArguments)]
      pure (encode written)
  return .text (if (k.getD "show" (.truth true)).isTrue then videoTag data else "")

def showWindow : Page Item := do
  tell "gcf"
  tell "gcf().canvas.manager.window.raise_"
  tell "show"
  return .nothing

def showPictures (f : Film) (k : Keywords) : Page Item := do
  let shown := (k.getD "show" (.truth true)).isTrue
  if shown then tell "animation._init_draw"
  (List.range f.frames).forM fun _ => do
    if shown then
      tell "gcf"
      tell "display" [.object "gcf()"]
    tell "animation._step"
    if shown then tell "clear_output" [] [("wait", .truth true)]
  return .nothing

def present (f : Film) (k : Keywords) : Page Item := do
  let n ← get
  if !n.running then return .nothing
  match n.display? with
  | none => raiseWith .general "Call set_display_mode first"
  | some .video => showVideo f k
  | some .window => showWindow
  | some .picture => showPictures f k

def animate (grid : MaskedArray) (change : MaskedArray → MaskedArray) (frames : Item) (updates : Nat) : Page Item := do
  tell "figure"
  tell "imshow" [.array grid] [("interpolation", .text "none")]
  tell "FuncAnimation" [.object "figure()"] [("frames", frames)]
  (List.range updates).forM fun _ => tell "imshow().set_array" [.array (change grid)]
  return .list (.replicate updates (.list [.object "imshow()"]))

end Notebook

end StencilForge.Drawing
