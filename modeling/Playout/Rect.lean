import Playout.Json.Form

/-!
# Rectangles

Where video is drawn, in pixels of the output.
-/

namespace Playout

structure Rect where
  x : UInt32
  y : UInt32
  width : UInt32
  height : UInt32
  deriving DecidableEq, Inhabited, Repr

namespace Rect

/-- The rectangle at the origin that covers nothing. -/
def zero : Rect :=
  ⟨0, 0, 0, 0⟩

/-- A rectangle without width or without height covers nothing, wherever it lies. -/
def isEmpty (r : Rect) : Bool :=
  r.width == 0 || r.height == 0

instance : JsonForm Rect where
  encode r := .record
    [("x", JsonForm.encode r.x), ("y", JsonForm.encode r.y),
      ("width", JsonForm.encode r.width), ("height", JsonForm.encode r.height)]
  decode j :=
    match j.members? ["x", "y", "width", "height"] with
    | some [x, y, width, height] => do
      return ⟨← JsonForm.required x, ← JsonForm.required y, ← JsonForm.required width,
        ← JsonForm.required height⟩
    | _ => none

end Rect

end Playout
