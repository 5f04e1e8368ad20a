import DriverBus.Foundations.JsonText

/-!
# Messages on the wire

Both peers write a message as a JSON object on one line, followed by a line
feed or by a carriage return and a line feed.
-/

namespace DriverBus.Pipe

open DriverBus.Foundations.Json

def lf : UInt8 := 0x0A
def cr : UInt8 := 0x0D

/-- A byte that does not end a line. -/
def inLine (b : UInt8) : Bool := b ≠ lf && b ≠ cr

inductive LineEnd
  | lf
  | crlf
  deriving DecidableEq, Repr

def LineEnd.bytes : LineEnd → Bytes
  | .lf => [Pipe.lf]
  | .crlf => [cr, Pipe.lf]

structure Message where
  text : Bytes
  isObject : IsObject text
  oneLine : ∀ b ∈ text, inLine b = true

/-- A message with the line end it was written with. -/
structure Frame extends Message where
  lineEnd : LineEnd

def Frame.bytes (f : Frame) : Bytes := f.text ++ f.lineEnd.bytes

def framesBytes (fs : List Frame) : Bytes := (fs.map Frame.bytes).flatten

variable {f : Frame} {fs : List Frame} {text : Bytes}

@[simp] theorem framesBytes_nil : framesBytes [] = [] := rfl

@[simp] theorem framesBytes_cons : framesBytes (f :: fs) = f.bytes ++ framesBytes fs := rfl

theorem Message.text_ne_nil (m : Message) : m.text ≠ [] := by
  obtain ⟨body, _, hbody⟩ := m.isObject
  simp [hbody]

theorem lf_notMem (ht : ∀ b ∈ text, inLine b = true) : lf ∉ text := by
  intro hmem
  have := ht lf hmem
  simp [inLine] at this

end DriverBus.Pipe
