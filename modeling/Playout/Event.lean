import Playout.Error
import Playout.Rect
import Playout.Sample

/-!
# Events

What a presentation tells the display.
-/

namespace Playout

/-- A decoded frame, to be drawn at `output`. -/
structure VideoFrame where
  payload : Payload
  pixelFormat : PixelFormat
  frameWidth : UInt32
  frameHeight : UInt32
  output : Rect
  deriving DecidableEq, Repr

inductive Event where
  | videoFrame (frame : VideoFrame)
  /-- A region where a frame was shown has to be painted over. -/
  | redraw (region : Rect)
  deriving DecidableEq, Repr

namespace Event

def kind : Event → String
  | .videoFrame _ => "video_frame"
  | .redraw _ => "redraw"

/-- A channel takes an event as long as someone holds its other end. -/
def sendTo (receiverOpen : Bool) (e : Event) : Except MediaError Unit :=
  if receiverOpen then .ok ()
  else .error (.deliveryFailed ("event receiver closed, dropped " ++ e.kind))

end Event

end Playout
