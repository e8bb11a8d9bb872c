import Bourse.Address
import Bourse.Sha256

/-!
# Contexts

A context is the matrix of words that a program can look at: at most sixteen columns of at most
256 rows. Its first column names who calls and which book is called; then come the columns of the
caller; then, if there are rows signed by others, a column with the signers and a column for each
signed row.
-/

namespace Bourse

/-- Why there is no context. -/
inductive ContextError where
  /-- There are too many columns. -/
  | tooManyColumns (columns : Nat)
  /-- A column has too many rows. -/
  | tooManyRows (column rows : Nat)
  /-- A signature is not the one of the signer over the row. -/
  | invalidSignature (index : Nat) (signer : Address)
  deriving DecidableEq

/-- The sentence that reports why there is no context. -/
def ContextError.message : ContextError → String
  | .tooManyColumns columns =>
    "context has " ++ toString columns ++ " columns while at most 16 are allowed."
  | .tooManyRows column rows =>
    "context column " ++ toString column ++ " has " ++ toString rows
      ++ " rows while at most 256 are allowed."
  | .invalidSignature index signer =>
    "signature of the signed context #" ++ toString index ++ " does not match its signer "
      ++ signer.text ++ "."

/-- The number of columns a context can have. -/
def Context.maxColumns : Nat := 16

/-- The number of rows a column can have. -/
def Context.maxRows : Nat := 256

/-- A matrix of words by columns. -/
structure Context where
  /-- The columns, which need not have the same number of rows. -/
  columns : List (List Word)
  length_le : columns.length ≤ Context.maxColumns
  rows_le : ∀ column ∈ columns, column.length ≤ Context.maxRows
  deriving DecidableEq

/-- A row of words with a signature over it. -/
structure SignedRow where
  signer : Address
  signature : Bytes
  words : List Word
  deriving DecidableEq

/-- The digest that is signed. -/
def SignedRow.digest (row : SignedRow) : Word := Sha256.digest (Word.concatBytes row.words)

/-- Whether a signature is the one of a signer over a digest. -/
abbrev Verifier := (signer : Address) → (digest : Word) → (signature : Bytes) → Bool

/-- Whether the row is signed by its signer. -/
def SignedRow.accepted (verify : Verifier) (row : SignedRow) : Bool :=
  verify row.signer row.digest row.signature

namespace Context

/-- The context without columns. -/
def empty : Context := ⟨[], Nat.zero_le _, fun _ h => absurd h List.not_mem_nil⟩

/-- The context with the given columns, unless there are too many or one of them is too long. -/
def ofColumns (columns : List (List Word)) : Except ContextError Context :=
  if hc : columns.length ≤ maxColumns then
    if hr : ∀ column ∈ columns, column.length ≤ maxRows then
      .ok ⟨columns, hc, hr⟩
    else
      let index := columns.findIdx fun column => maxRows < column.length
      .error (.tooManyRows index ((columns[index]?).getD []).length)
  else
    .error (.tooManyColumns columns.length)

/-- A column, if there is one. -/
def column? (c : Context) (column : Nat) : Option (List Word) := c.columns[column]?

/-- A cell, if there is one. -/
def cell? (c : Context) (column row : Nat) : Option Word := do (← c.column? column)[row]?

/-- The context with another column in the place of one; nothing changes if there is no such
column. -/
def setColumn (c : Context) (index : Nat) (column : List Word) (h : column.length ≤ maxRows) :
    Context :=
  ⟨c.columns.set index column, by rw [List.length_set]; exact c.length_le, fun other hmem =>
    (List.mem_or_eq_of_mem_set hmem).elim (c.rows_le other) fun heq => heq ▸ h⟩

/-- The context with another word in a cell; nothing changes if there is no such cell. -/
def setCell (c : Context) (column row : Nat) (w : Word) : Context :=
  match h : c.column? column with
  | none => c
  | some words => c.setColumn column (words.set row w) <| by
    rw [List.length_set]
    exact c.rows_le words (List.mem_of_getElem? h)

/-- The columns of a context make that context. -/
theorem ofColumns_columns (c : Context) : ofColumns c.columns = .ok c := by
  rw [ofColumns, dif_pos c.length_le, dif_pos c.rows_le]

/-- The columns that show signed rows: the signers, then each row. There are none without rows. -/
def signedColumns : List SignedRow → List (List Word)
  | [] => []
  | rows => (rows.map fun row => row.signer.toWord) :: rows.map SignedRow.words

/-- The context of a call: who calls, which book is called, the columns of the caller and the signed
rows, each of which must be accepted. -/
def build (verify : Verifier) (sender book : Address) (columns : List (List Word))
    (signed : List SignedRow) : Except ContextError Context :=
  match signed.zipIdx.find? fun (row, _) => !row.accepted verify with
  | some (row, index) => .error (.invalidSignature index row.signer)
  | none => ofColumns ([sender.toWord, book.toWord] :: columns ++ signedColumns signed)

end Context

end Bourse
