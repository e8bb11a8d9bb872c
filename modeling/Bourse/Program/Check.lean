import Bourse.Code
import Bourse.Instruction.Effect

/-!
# Checking a program before it runs

A program is a number of sources that share a pool of constants. Each source is walked once, with
the height of the stack instead of the stack, and refused when some run would be certain to read
or pop what is not there. The walk also yields the greatest height, which is all the room a run of
the source needs.
-/

namespace Bourse

/-- The heights of the stack that the walk over a source finds. -/
structure Heights where
  /-- The greatest height after an instruction. -/
  peak : Nat
  /-- The height after the last instruction. -/
  last : Nat
  deriving DecidableEq, Repr, Inhabited

/-- Why a source is refused. -/
inductive SourceFlaw where
  /-- The code is longer than a segment. -/
  | tooLong (length : Nat)
  /-- The code does not consist of whole units. -/
  | misaligned (length : Nat)
  /-- A unit cannot be read. -/
  | decode (pos : Nat) (cause : DecodeError)
  /-- An operand is refused. -/
  | operand (pos : Nat) (instruction : Instruction) (cause : OperandError)
  /-- An instruction takes more values than there are. -/
  | stackUnderflow (pos : Nat) (instruction : Instruction)
  /-- The stack grows beyond any allocation. -/
  | stackOverflow (pos : Nat)
  /-- Fewer values are left than are required. -/
  | tooFewOutputs (left required : Nat)
  deriving DecidableEq

/-- Why a program is refused. -/
inductive Rejection where
  /-- There are too many sources. -/
  | tooManySources (count : Nat)
  /-- There are too many constants. -/
  | tooManyConstants (count : Nat)
  /-- A source is refused. -/
  | source (index : Nat) (flaw : SourceFlaw)
  deriving DecidableEq

/-- The sentence that reports a refused source. -/
def SourceFlaw.message (index : Nat) : SourceFlaw → String
  | .tooLong length =>
    "source #" ++ toString index ++ " is " ++ toString length
      ++ " bytes long, exceeding the limit of 65535 bytes."
  | .misaligned length =>
    "source #" ++ toString index ++ " is " ++ toString length
      ++ " bytes long, which is not a multiple of the 4-byte instruction size."
  | .decode pos cause => located pos ++ cause.message
  | .operand pos instruction cause =>
    located pos ++ "instruction `" ++ instruction.text ++ "` " ++ cause.message
  | .stackUnderflow pos instruction =>
    located pos ++ "instruction `" ++ instruction.text ++ "` underflows the stack."
  | .stackOverflow pos => located pos ++ "stack height exceeds 65535 values."
  | .tooFewOutputs left required =>
    "source #" ++ toString index ++ " leaves " ++ toString left
      ++ " values on the stack while at least " ++ toString required ++ " are required."
where
  /-- Where in the source. -/
  located (pos : Nat) : String :=
    "source #" ++ toString index ++ " at offset " ++ toString pos ++ ": "

/-- The sentence that reports a refused program. -/
def Rejection.message : Rejection → String
  | .tooManySources count =>
    "evaluable contains " ++ toString count ++ " sources while at most 255 are allowed."
  | .tooManyConstants count =>
    "evaluable contains " ++ toString count ++ " constants while at most 65535 are allowed."
  | .source index flaw => flaw.message index

namespace Heights

/-- The greatest height that the walk allows. -/
def maxHeight : Nat := 65535

/-- The heights before the first instruction. -/
def start : Heights := ⟨0, 0⟩

/-- Walk over one instruction that is at a position. -/
def next (constants : Nat) (h : Heights) (pos : Nat) (i : Instruction) :
    Except SourceFlaw Heights :=
  match i.checkOperand h.last constants with
  | .error cause => .error (.operand pos i cause)
  | .ok () =>
    if h.last < i.inputs then
      .error (.stackUnderflow pos i)
    else
      let last := h.last - i.inputs + i.outputs
      if maxHeight < last then .error (.stackOverflow pos) else .ok ⟨max h.peak last, last⟩

/-- Walk over one unit. -/
def nextUnit (constants : Nat) (h : Heights) (u : CodeUnit) : Except SourceFlaw Heights :=
  match u.content with
  | .error cause => .error (.decode u.pos cause)
  | .ok i => h.next constants u.pos i

/-- Walk over code with so many constants. -/
def walk (constants : Nat) (code : Bytes) : Except SourceFlaw Heights :=
  (Code.units 0 code).foldlM (nextUnit constants) start

end Heights

/-- The heights of a source of whole units that fits a segment and leaves enough values. -/
def Code.check (constants required : Nat) (code : Bytes) : Except SourceFlaw Heights :=
  if maxPosition < code.length then
    .error (.tooLong code.length)
  else if code.length % unitSize ≠ 0 then
    .error (.misaligned code.length)
  else do
    let heights ← Heights.walk constants code
    if heights.last < required then
      .error (.tooFewOutputs heights.last required)
    else
      .ok heights

/-- The sources of a program and its constants. -/
structure Deployment where
  sources : List Bytes
  constants : Array Word
  deriving DecidableEq

namespace Deployment

/-- The greatest number of sources. -/
def maxSources : Nat := 255

/-- The greatest number of constants. -/
def maxConstants : Nat := 65535

/-- The heights of all sources, the first flaw being the cause of failure. Source `i` must leave at
least `required[i]` values; a source without such a number may leave none. -/
def check (d : Deployment) (required : List Nat) : Except Rejection (List Heights) :=
  if maxSources < d.sources.length then
    .error (.tooManySources d.sources.length)
  else if maxConstants < d.constants.size then
    .error (.tooManyConstants d.constants.size)
  else
    d.sources.zipIdx.mapM fun (code, index) =>
      match Code.check d.constants.size (required[index]?.getD 0) code with
      | .ok heights => .ok heights
      | .error flaw => .error (.source index flaw)

end Deployment

end Bourse
