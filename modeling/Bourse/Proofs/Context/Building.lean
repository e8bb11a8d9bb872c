import Bourse.Context

/-!
# What a context shows

A context is built from who calls and which book is called, the columns of the caller, and the
rows that others have signed. Each of its columns is one of these, at a place that the numbers of
columns and of rows alone decide. It is refused for the first row whose signature is not accepted,
else for having too many columns, else for the first column that is too long, and for nothing
else.
-/

namespace Bourse.Context

/-- A context is known by its columns. -/
theorem eq_of_columns_eq {a b : Context} (h : a.columns = b.columns) : a = b := by
  cases a
  cases b
  cases h
  rfl

/-- Columns make the context that has them, if there is one. -/
theorem ofColumns_eq_ok_iff {columns : List (List Word)} {c : Context} :
    ofColumns columns = .ok c ↔ c.columns = columns := by
  constructor
  · intro h
    rw [ofColumns] at h
    split at h
    · split at h
      · cases h
        rfl
      · cases h
    · cases h
  · rintro rfl
    exact c.ofColumns_columns

/-- No signed row is found to be rejected when all are accepted. -/
theorem find?_rejected_eq_none_iff {verify : Verifier} {signed : List SignedRow} :
    (signed.zipIdx.find? fun (row, _) => !row.accepted verify) = none ↔
      ∀ row ∈ signed, row.accepted verify = true := by
  rw [List.find?_eq_none]
  constructor
  · intro hnone row hmem
    obtain ⟨index, hrow⟩ := List.mem_iff_getElem?.mp hmem
    simpa using hnone (row, index) (List.mk_mem_zipIdx_iff_getElem?.mpr hrow)
  · rintro haccepted ⟨row, index⟩ hmem
    simpa using haccepted row (List.fst_mem_of_mem_zipIdx hmem)

/-- Rows that are all accepted are shown, unless the context gets too large. -/
theorem build_of_accepted {verify : Verifier} {sender book : Address} {columns : List (List Word)}
    {signed : List SignedRow} (h : ∀ row ∈ signed, row.accepted verify = true) :
    build verify sender book columns signed =
      ofColumns ([sender.toWord, book.toWord] :: columns ++ signedColumns signed) := by
  rw [build, find?_rejected_eq_none_iff.mpr h]

/-- A context is built when all signed rows are accepted and its columns are those of a context. -/
theorem build_eq_ok_iff {verify : Verifier} {sender book : Address} {columns : List (List Word)}
    {signed : List SignedRow} {c : Context} :
    build verify sender book columns signed = .ok c ↔
      (∀ row ∈ signed, row.accepted verify = true) ∧
      ofColumns ([sender.toWord, book.toWord] :: columns ++ signedColumns signed) = .ok c := by
  by_cases haccepted : ∀ row ∈ signed, row.accepted verify = true
  · rw [build_of_accepted haccepted, and_iff_right haccepted]
  · refine iff_of_false ?_ fun h => haccepted h.1
    rw [build]
    split
    · simp
    · next hnone => exact absurd (find?_rejected_eq_none_iff.mp hnone) haccepted

variable {sender book : Address} {columns : List (List Word)} {signed : List SignedRow}

/-- The number of columns of the context: the one of the call, those of the caller, and, if there
are signed rows, the one of the signers and one for each row. -/
def width (columns : List (List Word)) (signed : List SignedRow) : Nat :=
  1 + columns.length + if signed = [] then 0 else 1 + signed.length

/-- What the column at an index is to show. -/
inductive Layout (sender book : Address) (columns : List (List Word)) (signed : List SignedRow) :
    Nat → List Word → Prop
  /-- Who calls, and which book is called. -/
  | call : Layout sender book columns signed 0 [sender.toWord, book.toWord]
  /-- A column of the caller. -/
  | own {j : Nat} {column : List Word} (h : columns[j]? = some column) :
    Layout sender book columns signed (1 + j) column
  /-- The signers, in the order of the rows. -/
  | signers (h : signed ≠ []) :
    Layout sender book columns signed (1 + columns.length) (signed.map fun row => row.signer.toWord)
  /-- The words of a signed row. -/
  | row {k : Nat} {row : SignedRow} (h : signed[k]? = some row) :
    Layout sender book columns signed (2 + columns.length + k) row.words

theorem signedColumns_cons (row : SignedRow) (rows : List SignedRow) :
    signedColumns (row :: rows) =
      ((row :: rows).map fun row => row.signer.toWord) :: (row :: rows).map SignedRow.words := rfl

/-- Signed rows take a column each and one for the signers. -/
theorem length_signedColumns (signed : List SignedRow) :
    (signedColumns signed).length = if signed = [] then 0 else 1 + signed.length := by
  cases signed with
  | nil => rfl
  | cons row rows => simp [signedColumns_cons, Nat.add_comm]

/-- The parts of a context have as many columns as its width says. -/
theorem length_parts (sender book : Address) (columns : List (List Word))
    (signed : List SignedRow) :
    ([sender.toWord, book.toWord] :: columns ++ signedColumns signed).length =
      width columns signed := by
  rw [List.length_append, List.length_cons, length_signedColumns, width,
    Nat.add_comm columns.length]

/-- The columns for signed rows stand behind those of the caller. -/
theorem layout_signed {i : Nat} {column : List Word}
    (h : (signedColumns signed)[i]? = some column) :
    Layout sender book columns signed (1 + (columns.length + i)) column := by
  cases signed with
  | nil => cases h
  | cons row rows =>
    cases i with
    | zero =>
      cases h
      exact .signers (List.cons_ne_nil row rows)
    | succ k =>
      rw [signedColumns_cons, List.getElem?_cons_succ, List.getElem?_map,
        Option.map_eq_some_iff] at h
      obtain ⟨found, hfound, rfl⟩ := h
      have hplace : 1 + (columns.length + (k + 1)) = 2 + columns.length + k := by omega
      rw [hplace]
      exact .row hfound

/-- The columns one after the other are laid out so. -/
theorem getElem?_parts_eq_some_iff {index : Nat} {column : List Word} :
    ([sender.toWord, book.toWord] :: columns ++ signedColumns signed)[index]? = some column ↔
      Layout sender book columns signed index column := by
  rw [List.cons_append]
  constructor
  · intro h
    cases index with
    | zero =>
      cases h
      exact .call
    | succ i =>
      rw [List.getElem?_cons_succ] at h
      by_cases hown : i < columns.length
      · rw [List.getElem?_append_left hown] at h
        rw [Nat.add_comm]
        exact .own h
      · rw [List.getElem?_append_right (Nat.le_of_not_lt hown)] at h
        have hsigned : Layout sender book columns signed
            (1 + (columns.length + (i - columns.length))) column := layout_signed h
        have hplace : 1 + (columns.length + (i - columns.length)) = i + 1 := by omega
        rwa [hplace] at hsigned
  · intro h
    cases h with
    | call => rfl
    | @own j _ hown =>
      have hj : j < columns.length := (List.getElem?_eq_some_iff.mp hown).1
      rw [Nat.add_comm, List.getElem?_cons_succ, List.getElem?_append_left hj, hown]
    | signers hsome =>
      obtain ⟨row, rows, rfl⟩ := List.exists_cons_of_ne_nil hsome
      rw [Nat.add_comm, List.getElem?_cons_succ, List.getElem?_append_right (Nat.le_refl _),
        Nat.sub_self]
      rfl
    | @row k row hrow =>
      have hplace : 2 + columns.length + k = (columns.length + (k + 1)) + 1 := by omega
      rw [hplace, List.getElem?_cons_succ, List.getElem?_append_right (Nat.le_add_right ..),
        Nat.add_sub_cancel_left]
      cases signed with
      | nil => cases hrow
      | cons first rows =>
        rw [signedColumns_cons, List.getElem?_cons_succ, List.getElem?_map, hrow]
        rfl

/-- Why the context of a call is refused. -/
inductive Refused (verify : Verifier) (sender book : Address) (columns : List (List Word))
    (signed : List SignedRow) : ContextError → Prop
  /-- This row is the first one whose signature over the digest of its words is not accepted. -/
  | invalidSignature {k : Nat} {row : SignedRow} (hrow : signed[k]? = some row)
    (hrejected : verify row.signer (Sha256.digest (Word.concatBytes row.words)) row.signature =
      false)
    (hbefore : ∀ i < k, ∀ earlier, signed[i]? = some earlier → earlier.accepted verify = true) :
    Refused verify sender book columns signed (.invalidSignature k row.signer)
  /-- All rows are accepted, but there are too many columns. -/
  | tooManyColumns (haccepted : ∀ row ∈ signed, row.accepted verify = true)
    (hwidth : maxColumns < width columns signed) :
    Refused verify sender book columns signed (.tooManyColumns (width columns signed))
  /-- There are not too many columns, but this one is the first that is too long. -/
  | tooManyRows {j : Nat} {column : List Word}
    (haccepted : ∀ row ∈ signed, row.accepted verify = true)
    (hwidth : width columns signed ≤ maxColumns)
    (hcolumn : Layout sender book columns signed j column) (hlength : maxRows < column.length)
    (hbefore : ∀ i < j, ∀ earlier, Layout sender book columns signed i earlier →
      earlier.length ≤ maxRows) :
    Refused verify sender book columns signed (.tooManyRows j column.length)

/-- What is found first is found with its place, and nothing is found before it. -/
theorem find?_rejected_eq_some_iff {verify : Verifier} {row : SignedRow} {index : Nat} :
    (signed.zipIdx.find? fun (row, _) => !row.accepted verify) = some (row, index) ↔
      signed[index]? = some row ∧ row.accepted verify = false ∧
      ∀ i < index, ∀ earlier, signed[i]? = some earlier → earlier.accepted verify = true := by
  rw [List.find?_eq_some_iff_getElem]
  constructor
  · rintro ⟨hrejected, i, hi, hfound, hbefore⟩
    rw [List.getElem_zipIdx] at hfound
    cases hfound
    rw [List.length_zipIdx] at hi
    refine ⟨?_, by simpa using hrejected, ?_⟩
    · simp
    · intro j hj earlier hearlier
      have haccepted := hbefore j (by omega)
      rw [List.getElem_zipIdx] at haccepted
      obtain ⟨_, rfl⟩ := List.getElem?_eq_some_iff.mp hearlier
      simpa using haccepted
  · rintro ⟨hrow, hrejected, hbefore⟩
    obtain ⟨hindex, rfl⟩ := List.getElem?_eq_some_iff.mp hrow
    refine ⟨by simpa using hrejected, index, by simpa using hindex, by simp, ?_⟩
    intro j hj
    have haccepted := hbefore j hj _ (List.getElem?_eq_getElem (by omega))
    simpa using haccepted

/-- Where the first column is that is too long. -/
theorem findIdx_tooLong_eq {columns : List (List Word)} {j : Nat} {column : List Word}
    (hcolumn : columns[j]? = some column) (hlong : maxRows < column.length)
    (hbefore : ∀ i < j, ∀ earlier, columns[i]? = some earlier → earlier.length ≤ maxRows) :
    (columns.findIdx fun column => maxRows < column.length) = j := by
  obtain ⟨hj, rfl⟩ := List.getElem?_eq_some_iff.mp hcolumn
  rw [List.findIdx_eq hj]
  refine ⟨by simpa using hlong, fun i hi => ?_⟩
  simpa using hbefore i hi _ (List.getElem?_eq_getElem (by omega))

/-- If a column is too long then there is a first one that is. -/
theorem exists_first_tooLong {columns : List (List Word)}
    (h : ¬ ∀ column ∈ columns, column.length ≤ maxRows) :
    ∃ (j : Nat) (column : List Word), columns[j]? = some column ∧ maxRows < column.length ∧
      ∀ i < j, ∀ earlier, columns[i]? = some earlier → earlier.length ≤ maxRows := by
  have hsome : ∃ column ∈ columns, decide (maxRows < column.length) = true := by simpa using h
  have hlt := List.findIdx_lt_length_of_exists hsome
  refine ⟨_, _, List.getElem?_eq_getElem hlt, ?_, fun i hi earlier hearlier => ?_⟩
  · simpa using List.findIdx_getElem (w := hlt)
  · obtain ⟨_, rfl⟩ := List.getElem?_eq_some_iff.mp hearlier
    simpa using List.not_of_lt_findIdx hi

/-- Columns are refused for their number, or else for the first one that is too long. -/
theorem ofColumns_eq_error_iff {columns : List (List Word)} {e : ContextError} :
    ofColumns columns = .error e ↔
      (maxColumns < columns.length ∧ e = .tooManyColumns columns.length) ∨
      columns.length ≤ maxColumns ∧ ∃ j column, columns[j]? = some column ∧
        maxRows < column.length ∧
        (∀ i < j, ∀ earlier, columns[i]? = some earlier → earlier.length ≤ maxRows) ∧
        e = .tooManyRows j column.length := by
  by_cases hwidth : columns.length ≤ maxColumns
  · rw [ofColumns, dif_pos hwidth, and_iff_right hwidth,
      or_iff_right fun h => absurd hwidth (Nat.not_le_of_lt h.1)]
    by_cases hrows : ∀ column ∈ columns, column.length ≤ maxRows
    · rw [dif_pos hrows]
      refine iff_of_false (by simp) ?_
      rintro ⟨j, column, hcolumn, hlong, _⟩
      exact absurd (hrows column (List.mem_of_getElem? hcolumn)) (Nat.not_le_of_lt hlong)
    · rw [dif_neg hrows]
      constructor
      · rintro ⟨⟩
        obtain ⟨j, column, hcolumn, hlong, hbefore⟩ := exists_first_tooLong hrows
        rw [findIdx_tooLong_eq hcolumn hlong hbefore, hcolumn]
        exact ⟨j, column, hcolumn, hlong, hbefore, rfl⟩
      · rintro ⟨j, column, hcolumn, hlong, hbefore, rfl⟩
        simp only [findIdx_tooLong_eq hcolumn hlong hbefore, hcolumn, Option.getD_some]
  · rw [ofColumns, dif_neg hwidth]
    have hmany := Nat.lt_of_not_le hwidth
    simp [hwidth, hmany, eq_comm]

/-- A context is refused for exactly one of the causes, in this order. -/
theorem build_eq_error_iff {verify : Verifier} {e : ContextError} :
    build verify sender book columns signed = .error e ↔
      Refused verify sender book columns signed e := by
  by_cases haccepted : ∀ row ∈ signed, row.accepted verify = true
  · rw [build_of_accepted haccepted, ofColumns_eq_error_iff, length_parts]
    simp only [getElem?_parts_eq_some_iff]
    constructor
    · rintro (⟨hwidth, rfl⟩ | ⟨hwidth, j, column, hcolumn, hlong, hbefore, rfl⟩)
      · exact .tooManyColumns haccepted hwidth
      · exact .tooManyRows haccepted hwidth hcolumn hlong hbefore
    · intro h
      cases h with
      | @invalidSignature k row hrow hrejected hbefore =>
        have hrow' := haccepted row (List.mem_of_getElem? hrow)
        exact absurd (hrow'.symm.trans hrejected) (by decide)
      | tooManyColumns _ hwidth => exact Or.inl ⟨hwidth, rfl⟩
      | tooManyRows _ hwidth hcolumn hlong hbefore =>
        exact Or.inr ⟨hwidth, _, _, hcolumn, hlong, hbefore, rfl⟩
  · rw [build]
    cases hfind : signed.zipIdx.find? fun (row, _) => !row.accepted verify with
    | none => exact absurd (find?_rejected_eq_none_iff.mp hfind) haccepted
    | some found =>
      obtain ⟨row, index⟩ := found
      obtain ⟨hrow, hrejected, hbefore⟩ := find?_rejected_eq_some_iff.mp hfind
      constructor
      · rintro ⟨⟩
        exact .invalidSignature hrow hrejected hbefore
      · intro h
        cases h with
        | @invalidSignature k first hfirst hrejected' hbefore' =>
          have hfind' := find?_rejected_eq_some_iff.mpr ⟨hfirst, hrejected', hbefore'⟩
          rw [hfind] at hfind'
          cases hfind'
          rfl
        | tooManyColumns haccepted' => exact absurd haccepted' haccepted
        | tooManyRows haccepted' => exact absurd haccepted' haccepted

/-- The context shows the parts of the call and nothing else. -/
structure Shows (c : Context) (sender book : Address) (columns : List (List Word))
    (signed : List SignedRow) : Prop where
  width_eq : c.columns.length = width columns signed
  column?_eq_some_iff : ∀ {index : Nat} {column : List Word},
    c.column? index = some column ↔ Layout sender book columns signed index column

/-- A context made of its parts shows each of them in its place. -/
theorem shows_of_columns {c : Context}
    (h : c.columns = [sender.toWord, book.toWord] :: columns ++ signedColumns signed) :
    c.Shows sender book columns signed := by
  refine ⟨?_, ?_⟩
  · rw [h, length_parts]
  · intro index column
    rw [column?, h, getElem?_parts_eq_some_iff]

/-- What a context is to show determines it. -/
theorem Shows.eq {c c' : Context} (h : c.Shows sender book columns signed)
    (h' : c'.Shows sender book columns signed) : c = c' := by
  refine eq_of_columns_eq (List.ext_getElem? fun index => Option.ext fun column => ?_)
  exact h.column?_eq_some_iff.trans h'.column?_eq_some_iff.symm

/-- What is not refused is built. -/
theorem exists_build_of_not_refused {verify : Verifier}
    (h : ∀ e, ¬ Refused verify sender book columns signed e) :
    ∃ c, build verify sender book columns signed = .ok c := by
  cases hbuild : build verify sender book columns signed with
  | error e => exact absurd (build_eq_error_iff.mp hbuild) (h e)
  | ok c => exact ⟨c, rfl⟩

/-- Unless it is refused, the context of a call is the one that shows its parts. -/
theorem build_eq_ok_iff_shows {verify : Verifier} {c : Context} :
    build verify sender book columns signed = .ok c ↔
      (∀ e, ¬ Refused verify sender book columns signed e) ∧
        c.Shows sender book columns signed := by
  constructor
  · intro h
    refine ⟨fun e he => ?_, ?_⟩
    · rw [build_eq_error_iff.mpr he] at h
      cases h
    · exact shows_of_columns (ofColumns_eq_ok_iff.mp (build_eq_ok_iff.mp h).2)
  · rintro ⟨hnone, hshows⟩
    obtain ⟨c', hbuild⟩ := exists_build_of_not_refused hnone
    have hshows' := shows_of_columns (ofColumns_eq_ok_iff.mp (build_eq_ok_iff.mp hbuild).2)
    rw [hbuild, hshows.eq hshows']

end Bourse.Context
