/-
# The form of a frame

What a `FrameReader` reads: a frame is the length of its metadata, the metadata, the length of its
content and the content.
-/
import Intake.Frame.Length

namespace Intake.Frame

/-- The bytes of a part behind their length. -/
def encodePart (part : Bytes) : Bytes := encodeLength (UInt64.ofNat part.length) ++ part

/-- The bytes of a frame. -/
def encode (metadata content : Bytes) : Bytes := encodePart metadata ++ encodePart content

/-- The bytes of several frames, one behind the other. -/
def encodeAll (frames : List (Bytes × Bytes)) : Bytes :=
  frames.flatMap fun f => encode f.1 f.2

theorem length_encodePart (part : Bytes) :
    (encodePart part).length = lengthWidth + part.length := by
  rw [encodePart, List.length_append, length_encodeLength]

/-- A frame takes two length fields more than it carries. -/
theorem length_encode (metadata content : Bytes) :
    (encode metadata content).length = 2 * lengthWidth + metadata.length + content.length := by
  simp only [encode, List.length_append, length_encodePart]
  omega

end Intake.Frame
