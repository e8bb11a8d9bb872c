import Bourse.Arithmetic
import Bourse.Instruction.Encoding
import Bourse.SortedMap

/-!
# The stack machine

The state in which a program runs: a stack of words with a bound on its height, the scratch
values, and the cost of what has been run so far. Each access either succeeds or faults, and a
fault leaves the machine as it was at that moment: what an instruction has popped by then stays
popped.
-/

namespace Bourse

instance : Ranked Word := ⟨Word.toNat, Word.ext⟩

/-- The values that a program keeps under keys of its own while it runs. -/
abbrev Scratch := SortedMap Word Word

/-- The value under a key. A key that was never set reads as zero, so only the values that are
read can matter to a program, never the presence of a key. -/
def Scratch.read (s : Scratch) (key : Word) : Word := (s.get? key).getD 0

/-- Why a run of a program ends early. -/
inductive Fault where
  /-- The stack has no room for another value. -/
  | stackOverflow (alloc : Nat)
  /-- The stack has too few values. -/
  | stackUnderflow
  /-- There is no such value on the stack. -/
  | stackReadOutOfBounds (index height : Nat)
  /-- There is no such constant. -/
  | constantOutOfBounds (index : Nat)
  /-- There is no such cell of the context. -/
  | contextOutOfBounds (column row : Nat)
  /-- An amount cannot be computed. -/
  | arithmetic (cause : ArithmeticError)
  /-- A value that must not be zero is zero. -/
  | ensureFailed (index : Nat)
  /-- The limit on the cost is exceeded. -/
  | complexityExceeded
  /-- The code cannot be read. -/
  | decode (cause : DecodeError)
  deriving DecidableEq, Repr

/-- The sentence that reports a fault. -/
def Fault.message : Fault → String
  | .stackOverflow alloc =>
    "push beyond the allocated stack height of " ++ toString alloc ++ "."
  | .stackUnderflow => "pop from an empty stack."
  | .stackReadOutOfBounds index height =>
    "read of stack item " ++ toString index ++ " while the stack height is " ++ toString height
      ++ "."
  | .constantOutOfBounds index => "reference to absent constant #" ++ toString index ++ "."
  | .contextOutOfBounds column row =>
    "access to context cell at column " ++ toString column ++ ", row " ++ toString row
      ++ " which is out of bounds."
  | .arithmetic cause => cause.message
  | .ensureFailed index =>
    "ensure failed: value #" ++ toString index ++ " of the checked values is zero."
  | .complexityExceeded => "complexity limit exceeded."
  | .decode cause => "invalid bytecode: " ++ cause.message

/-- How programs are run. -/
structure Settings where
  /-- The reading of results that leave the range of words. -/
  mode : ArithmeticMode := .checked
  /-- The greatest cost of a run, if there is one. -/
  limit : Option Nat := none
  deriving DecidableEq, Repr

/-- The state of a run. -/
structure Machine where
  /-- The values on the stack, bottom first. -/
  stack : Array Word
  /-- The greatest height of the stack. -/
  alloc : Nat
  /-- The scratch values. -/
  scratch : Scratch
  /-- The settings of the run. -/
  settings : Settings
  /-- The cost of what has been run. -/
  spent : Nat
  deriving DecidableEq

namespace Machine

/-- The greatest cost that is counted. -/
def maxSpent : Nat := UInt64.size - 1

/-- A machine with an empty stack. -/
def start (settings : Settings) (alloc : Nat) (scratch : Scratch) : Machine where
  stack := #[]
  alloc := alloc
  scratch := scratch
  settings := settings
  spent := 0

/-- The number of values on the stack. -/
def height (m : Machine) : Nat := m.stack.size

/-- Add to the cost of what has been run. -/
def charge (m : Machine) (cost : Nat) : Machine := { m with spent := min (m.spent + cost) maxSpent }

/-- Whether the cost is within the limit. -/
def withinLimit (m : Machine) : Bool :=
  match m.settings.limit with
  | some limit => m.spent ≤ limit
  | none => true

/-- An access to the machine. -/
abbrev Access := EStateM Fault Machine

/-- Put a value on the stack. -/
def push (w : Word) : Access Unit := fun m =>
  if m.stack.size < m.alloc then
    .ok () { m with stack := m.stack.push w }
  else
    .error (.stackOverflow m.alloc) m

/-- Take the topmost value from the stack. -/
def pop : Access Word := fun m =>
  match m.stack.back? with
  | some w => .ok w { m with stack := m.stack.pop }
  | none => .error .stackUnderflow m

/-- Take the topmost `count` values from the stack, all or none; the deepest comes first. -/
def popMany (count : Nat) : Access (List Word) := fun m =>
  if count ≤ m.stack.size then
    let rest := m.stack.size - count
    .ok (m.stack.extract rest).toList { m with stack := m.stack.shrink rest }
  else
    .error .stackUnderflow m

/-- Look at a value on the stack, counted from the bottom. -/
def read (index : Nat) : Access Word := fun m =>
  match m.stack[index]? with
  | some w => .ok w m
  | none => .error (.stackReadOutOfBounds index m.stack.size) m

/-- The reading of results that leave the range of words. -/
def mode : Access ArithmeticMode := fun m => .ok m.settings.mode m

/-- Look at a scratch value. -/
def load (key : Word) : Access Word := fun m => .ok (m.scratch.read key) m

/-- Set a scratch value. -/
def store (key value : Word) : Access Unit := fun m =>
  .ok () { m with scratch := m.scratch.insert key value }

/-- An amount that may not be computable. -/
def amount (result : Except ArithmeticError Word) : Access Word := fun m =>
  match result with
  | .ok w => .ok w m
  | .error cause => .error (.arithmetic cause) m

/-- The marks around the parts of a machine's text. -/
structure TextStyle where
  heading : String
  name : String
  value : String
  reset : String

/-- Text without marks. -/
def TextStyle.plain : TextStyle := ⟨"", "", "", ""⟩

/-- Text for a terminal: section headings underlined, names bold, values green. -/
def TextStyle.terminal : TextStyle := ⟨"\x1B[0;4;1m", "\x1B[0;1m", "\x1B[0;32m", "\x1B[0m"⟩

/-- The counters, the stack from the bottom, and the scratch values in key order if there are
any. -/
def text (style : TextStyle) (m : Machine) : String :=
  let heading (s : String) := style.heading ++ s ++ style.reset ++ "\n"
  let name (s : String) := style.name ++ s ++ style.reset
  let value (s : String) := style.value ++ s ++ style.reset
  let limit := match m.settings.limit with
    | some limit => toString limit
    | none => "~"
  let counters := name "ca" ++ " " ++ value (toString m.spent) ++ ", " ++ name "cl" ++ " "
    ++ value limit ++ ", " ++ name "mode" ++ " " ++ value m.settings.mode.text ++ "\n"
  let stack := m.stack.toList.zipIdx.map fun (w, i) =>
    name ("[" ++ toString i ++ "]") ++ " " ++ value w.text ++ "\n"
  let scratch := m.scratch.entries.map fun (k, w) => name k.text ++ " => " ++ value w.text ++ "\n"
  heading "Counters:" ++ counters
    ++ heading ("Stack (" ++ toString m.stack.size ++ "/" ++ toString m.alloc ++ "):")
    ++ String.join stack
    ++ (if m.scratch.isEmpty then "" else heading "State:" ++ String.join scratch)

end Machine

end Bourse
