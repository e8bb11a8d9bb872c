import Bourse.Program.Check
import Bourse.Sha256

/-!
# Programs

A deployed program: sources and constants that have passed the check, the heights it found, and an
identifier that is the digest of all of them written one after the other. Every variable part is
written behind its length, so that different programs are written differently.
-/

namespace Bourse

/-- The identifier of a program. -/
structure ProgramId where
  digest : Word
  deriving DecidableEq

namespace ProgramId

/-- The hexadecimal digits of an identifier. -/
def hex (id : ProgramId) : String := id.digest.hex

/-- The marked hexadecimal digits of an identifier. -/
def text (id : ProgramId) : String := id.digest.text

/-- The text of an identifier together with what it is. -/
def label (id : ProgramId) : String := "EvaluableId(" ++ id.text ++ ")"

end ProgramId

namespace Deployment

/-- What marks the bytes of a program. -/
def tag : Bytes := "urn:exprvm:evaluable:v01".toUTF8.data.toList

/-- The bytes of a program: the tag, the number of sources, each source behind its length, the
number of constants, and the constants. -/
def preimage (d : Deployment) : Bytes :=
  tag ++ Bytes.bigEndian 1 d.sources.length
    ++ d.sources.flatMap (fun code => Bytes.bigEndian 2 code.length ++ code)
    ++ Bytes.bigEndian 2 d.constants.size ++ Word.concatBytes d.constants.toList

/-- The identifier that the bytes of a program give it. -/
def id (d : Deployment) : ProgramId := ⟨Sha256.digest d.preimage⟩

end Deployment

/-- A program that has passed the check. -/
structure Program extends Deployment where
  /-- The heights of the sources. -/
  heights : List Heights
  /-- The identifier. -/
  id : ProgramId
  /-- The check has passed, whatever number of values it required. -/
  accepted : ∃ required, toDeployment.check required = .ok heights
  id_eq : id = toDeployment.id
  deriving DecidableEq

namespace Program

/-- Check a program and identify it. -/
def deploy (d : Deployment) (required : List Nat) : Except Rejection Program :=
  match h : d.check required with
  | .error cause => .error cause
  | .ok heights => .ok { d with heights, id := d.id, accepted := ⟨required, h⟩, id_eq := rfl }

/-- The code of a source and its heights, if there is such a source. -/
def source? (p : Program) (index : Nat) : Option (Bytes × Heights) := do
  return (← p.sources[index]?, ← p.heights[index]?)

/-- The identifier, the number of constants, and each source with its heights and instructions. -/
def text (p : Program) : String :=
  let source := fun ((code, heights), index) =>
    let lines := match Code.disassemble code with
      | .ok instructions => instructions.map fun i => "    " ++ i.text ++ "\n"
      | .error _ => []
    "SOURCE #" ++ toString index ++ " (stack " ++ toString heights.peak ++ ", outputs "
      ++ toString heights.last ++ "):\n" ++ String.join lines
  "ID:     " ++ p.id.text ++ "\nCONSTS: " ++ toString p.constants.size ++ "\n"
    ++ String.join ((p.sources.zip p.heights).zipIdx.map source)

/-- The parts of a program on one line. -/
def summary (p : Program) : String :=
  let heights := p.heights.map fun h =>
    "StackHeights \x7b max: " ++ toString h.peak ++ ", end: " ++ toString h.last ++ " \x7d"
  "Evaluable \x7b id: " ++ p.id.label ++ ", sources: " ++ toString p.sources.length
    ++ ", constants: " ++ toString p.constants.size ++ ", stack_heights: ["
    ++ String.intercalate ", " heights ++ "] \x7d"

end Program

end Bourse
