import ScriptRecord.Lzss.Token
/-!
# The window

Output is written into a ring as well, from where copies take it back. Before it is overwritten, a
slot of the ring holds a space.
-/

namespace ScriptRecord.Lzss

/-- What every slot of the ring holds at first. -/
def windowFill : UInt8 := 0x20

/-- The output so far and the last of it in a ring. -/
structure Window where
  ring : Vector UInt8 4096
  /-- The slot that the next byte goes to. -/
  next : Fin 4096
  output : Array UInt8

namespace Window

/-- The window before any output. -/
def initial : Window :=
  ⟨Vector.replicate 4096 windowFill, place windowStart, #[]⟩

/-- Write one byte. -/
def push (window : Window) (byte : UInt8) : Window :=
  ⟨window.ring.set window.next.val byte window.next.isLt, place (window.next.val + 1),
    window.output.push byte⟩

/-- Write `count` bytes of the ring from `position` on. They are taken one by one, so they may
include bytes written by the same copy. -/
def copy (window : Window) (position : Fin 4096) : Nat → Window
  | 0 => window
  | count + 1 => (window.push (window.ring[position])).copy (place (position.val + 1)) count

/-- Write what a token stands for. -/
def expand (window : Window) : Token → Window
  | .literal byte => window.push byte
  | .copy position extra => window.copy position (extra.val + minMatch)

/-- Write what some tokens stand for, unless that exceeds `size` after one of them. -/
def expandAll (size : Nat) (window : Window) : List Token → Window
  | [] => window
  | token :: rest =>
    let window := window.expand token
    if size < window.output.size then window else expandAll size window rest

end Window

end ScriptRecord.Lzss
