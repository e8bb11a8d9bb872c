import Bourse.Proofs.Book.Approval
import Bourse.Proofs.Program.Columns

/-!
# Signed rows that an order does not look at

Whoever trades with an order attaches rows that others have signed, and the context shows them
behind the columns of the trade. An order whose program names none of these columns makes the same
offer whatever is attached, as long as there is a context at all: the only other thing that
accepted rows can do is to make the context too large.
-/

namespace Bourse

/-- The context would be larger than one can be. -/
def ContextError.Oversize : ContextError → Prop
  | .tooManyColumns _ | .tooManyRows .. => True
  | .invalidSignature .. => False

namespace Context

/-- Columns are refused for their size only. -/
theorem ofColumns_failsOnly (columns : List (List Word)) :
    FailsOnly ContextError.Oversize (ofColumns columns) := by
  rw [ofColumns]
  split
  · split
    · exact .ok _
    · exact .error trivial
  · exact .error trivial

/-- Columns make a context when there are not too many and none is too long. -/
theorem exists_ofColumns_iff {columns : List (List Word)} :
    (∃ c, ofColumns columns = .ok c) ↔
      columns.length ≤ maxColumns ∧ ∀ column ∈ columns, column.length ≤ maxRows := by
  constructor
  · rintro ⟨c, h⟩
    rw [ofColumns_eq_ok_iff] at h
    subst h
    exact ⟨c.length_le, c.rows_le⟩
  · rintro ⟨hcolumns, hrows⟩
    exact ⟨⟨columns, hcolumns, hrows⟩, ofColumns_eq_ok_iff.mpr rfl⟩

/-- Contexts with the same first columns agree on any of these. -/
theorem agreeOn_of_take_eq {names : List Nat} {c c' : Context} {n : Nat}
    (htake : c.columns.take n = c'.columns.take n) (hnames : ∀ column ∈ names, column < n) :
    c.AgreeOn names c' := by
  intro column hmem
  have hlt := hnames column hmem
  rw [column?, column?, ← List.getElem?_take_of_lt hlt, htake, List.getElem?_take_of_lt hlt]

end Context

namespace Trade

/-- The number of columns before those that show signed rows. -/
def ownColumns : Nat := 5

/-- Beside the columns of a trade and the one of the signers, a context has room for the rows. -/
def Attachable (signed : List SignedRow) : Prop :=
  ownColumns + 1 + signed.length ≤ Context.maxColumns ∧
    ∀ row ∈ signed, row.words.length ≤ Context.maxRows

variable {venue : Venue} {balance : VaultKey → Word} {trade : Trade} {input output : Leg}
  {offer : List Word} {received sent : Word}

/-- The columns of the trade itself come first. -/
def own (venue : Venue) (balance : VaultKey → Word) (trade : Trade) (input output : Leg)
    (offer : List Word) (received sent : Word) : List (List Word) :=
  (trade.columns venue balance input output offer received sent).take ownColumns

/-- The columns of a trade are its own and then those for signed rows. -/
theorem columns_eq_append :
    trade.columns venue balance input output offer received sent =
      trade.own venue balance input output offer received sent ++
        Context.signedColumns trade.signed := rfl

theorem length_own :
    (trade.own venue balance input output offer received sent).length = ownColumns :=
  rfl

/-- The columns of the trade itself are short. -/
theorem length_le_of_mem_own {column : List Word}
    (h : column ∈ trade.own venue balance input output [] received sent) :
    column.length ≤ Context.maxRows := by
  have hcases : column.length = 2 ∨ column.length = 3 ∨ column.length = 0 ∨ column.length = 5 := by
    simp only [own, columns, ownColumns, List.take_succ_cons, List.take_zero, List.mem_cons,
      List.not_mem_nil, or_false] at h
    rcases h with rfl | rfl | rfl | rfl | rfl <;> simp
  rw [Context.maxRows]
  omega

/-- The columns in which an offer is computed make a context if the signed rows fit it. -/
theorem exists_ofColumns_columns_iff :
    (∃ c, Context.ofColumns (trade.columns venue balance input output [] received sent) = .ok c) ↔
      Attachable trade.signed := by
  have hown : ∀ column ∈ trade.own venue balance input output [] received sent,
      column.length ≤ Context.maxRows := fun _ => length_le_of_mem_own
  rw [Context.exists_ofColumns_iff, columns_eq_append, List.length_append, length_own,
    List.forall_mem_append, and_iff_right hown, Attachable]
  cases trade.signed with
  | nil => simp [Context.signedColumns, ownColumns, Context.maxColumns]
  | cons row rows =>
    simp only [Context.signedColumns, List.length_cons, List.length_map, List.forall_mem_cons,
      List.map_cons, List.forall_mem_map, ownColumns, Context.maxColumns, Context.maxRows]
    constructor
    · rintro ⟨hcolumns, _, hrows⟩
      exact ⟨by omega, hrows⟩
    · rintro ⟨hcolumns, hrows⟩
      exact ⟨by omega, by omega, hrows⟩

end Trade

/-- The quotes offer the same to the same vaults with the same scratch values, and show the same
of the trade itself. -/
structure Quote.SameOffer (p q : Quote) : Prop where
  offer : p.toOffer = q.toOffer
  inputVault : p.inputVault = q.inputVault
  outputVault : p.outputVault = q.outputVault
  scratch : p.scratch = q.scratch
  own : p.context.columns.take Trade.ownColumns = q.context.columns.take Trade.ownColumns

/-- Rows that are accepted and fit in give a context, which shows them behind the columns of the
trade. -/
theorem Trade.exists_offerContext (venue : Venue) (vaults : Overlay) (trade : Trade)
    (input output : Leg) (haccepted : ∀ row ∈ trade.signed, row.accepted venue.verify = true)
    (hattachable : Attachable trade.signed) :
    ∃ c, venue.offerContext vaults trade.sender trade.order input output trade.counterparty
        trade.signed = .ok c ∧
      c.columns = trade.own venue vaults.balance input output [] 0 0 ++
        Context.signedColumns trade.signed := by
  obtain ⟨c, hc⟩ := exists_ofColumns_columns_iff.mpr hattachable
  exact ⟨c, offerContext_eq_ok_iff.mpr ⟨haccepted, hc⟩, Context.ofColumns_eq_ok_iff.mp hc⟩

section

variable {venue : Venue} {vaults : Overlay} {sender counterparty : Address} {order : Order}
  {choice : LegChoice} {input output : Leg} {signed signed' : List SignedRow}

/-- A single row that is too long is refused for its length, behind the column of the signers. -/
theorem Trade.ofColumns_of_long {row : SignedRow} {received sent : Word} {balance : VaultKey → Word}
    (hlong : Context.maxRows < row.words.length) :
    Context.ofColumns
      (Trade.columns venue balance ⟨sender, order, choice, counterparty, [row]⟩ input output []
        received sent) = .error (.tooManyRows (ownColumns + 1) row.words.length) := by
  rw [columns_eq_append, Context.ofColumns_eq_error_iff]
  refine .inr ⟨Nat.le_of_ble_eq_true rfl, ownColumns + 1, row.words, rfl, hlong, ?_, rfl⟩
  intro i hi earlier hearlier
  rcases Nat.lt_succ_iff_lt_or_eq.mp hi with hown | rfl
  · rw [List.getElem?_append_left (by rwa [length_own])] at hearlier
    exact length_le_of_mem_own (List.mem_of_getElem? hearlier)
  · cases hearlier
    exact Nat.le_of_ble_eq_true rfl

/-- An order that names only columns of the trade makes the same offer with either rows. -/
theorem Venue.quote_alike (hcolumns : ∀ column ∈ order.program.columns 0, column < Trade.ownColumns)
    (haccepted : ∀ row ∈ signed, row.accepted venue.verify = true)
    (haccepted' : ∀ row ∈ signed', row.accepted venue.verify = true)
    (hattachable : Trade.Attachable signed) (hattachable' : Trade.Attachable signed') :
    Alike Quote.SameOffer (venue.quote vaults sender order choice counterparty signed)
      (venue.quote vaults sender order choice counterparty signed') := by
  refine Alike.bind_same ?_
  rintro ⟨input, output⟩
  obtain ⟨c, hbuilt, hc⟩ := Trade.exists_offerContext venue vaults
    ⟨sender, order, choice, counterparty, signed⟩ input output haccepted hattachable
  obtain ⟨c', hbuilt', hc'⟩ := Trade.exists_offerContext venue vaults
    ⟨sender, order, choice, counterparty, signed'⟩ input output haccepted' hattachable'
  have hown : c.columns.take Trade.ownColumns = c'.columns.take Trade.ownColumns := by
    rw [hc, hc', List.take_left' Trade.length_own, List.take_left' Trade.length_own]
    rfl
  have hagree := Context.agreeOn_of_take_eq hown hcolumns
  have hsame : order.program.eval venue.settings ⟨0, 2⟩ c .empty =
      order.program.eval venue.settings ⟨0, 2⟩ c' .empty := Program.eval_congr hagree _ _
  simp only at hbuilt hbuilt'
  simp only [hbuilt, hbuilt', ok_mapError, ok_bind, hsame]
  refine Alike.bind_same fun outcome => ?_
  split
  · refine Alike.bind_same fun offer => .ok ⟨rfl, rfl, rfl, rfl, ?_⟩
    simp only [Context.setColumn, List.take_set, hown]
  · exact .error _

/-- Accepted rows are refused for what keeps the columns of the trade from being a context. -/
theorem Venue.quote_of_ofColumns_error {cause : ContextError}
    (hlegs : order.legs choice = .ok (input, output))
    (haccepted : ∀ row ∈ signed, row.accepted venue.verify = true)
    (hcolumns : Context.ofColumns (Trade.columns venue vaults.balance
      ⟨sender, order, choice, counterparty, signed⟩ input output [] 0 0) = .error cause) :
    venue.quote vaults sender order choice counterparty signed = .error (.context cause) := by
  have hcontext : venue.offerContext vaults sender order input output counterparty signed =
      .error cause := by
    rw [offerContext, Context.build_of_accepted haccepted]
    exact hcolumns
  rw [quote, hlegs, ok_bind]
  simp only [hcontext]
  rfl

/-- Rows that are accepted but do not fit in are refused for their size. -/
theorem Venue.quote_oversize (hlegs : order.legs choice = .ok (input, output))
    (haccepted : ∀ row ∈ signed, row.accepted venue.verify = true)
    (hattachable : ¬ Trade.Attachable signed) :
    ∃ cause : ContextError, cause.Oversize ∧
      venue.quote vaults sender order choice counterparty signed = .error (.context cause) := by
  cases hcolumns : Context.ofColumns (Trade.columns venue vaults.balance
      ⟨sender, order, choice, counterparty, signed⟩ input output [] 0 0) with
  | ok c => exact absurd (Trade.exists_ofColumns_columns_iff.mp ⟨c, hcolumns⟩) hattachable
  | error cause =>
    exact ⟨cause, Context.ofColumns_failsOnly _ cause hcolumns,
      quote_of_ofColumns_error hlegs haccepted hcolumns⟩

end

/-- What a source computes depends on the context only through the columns that its instructions
name: in contexts that agree on these it has the same outcome or fails alike at the same place. So
an order whose offer is computed from the columns of the trade makes the same offer whichever
accepted rows are attached; rows that leave no room for a context are refused before the program
runs. -/
theorem columns_noninterference :
    (∀ (p : Program) (settings : Settings) (entry : Entry) (scratch : Scratch) (c c' : Context),
      c.AgreeOn (p.columns entry.source.toNat) c' →
      p.eval settings entry c scratch = p.eval settings entry c' scratch) ∧
    ∀ (venue : Venue) (vaults : Overlay) (sender counterparty : Address) (order : Order)
      (choice : LegChoice),
      (∀ column ∈ order.program.columns 0, column < Trade.ownColumns) →
      ∀ signed : List SignedRow, (∀ row ∈ signed, row.accepted venue.verify = true) →
      (∀ signed' : List SignedRow, (∀ row ∈ signed', row.accepted venue.verify = true) →
        Trade.Attachable signed → Trade.Attachable signed' →
        Alike Quote.SameOffer (venue.quote vaults sender order choice counterparty signed)
          (venue.quote vaults sender order choice counterparty signed')) ∧
      (∀ legs, order.legs choice = .ok legs → ¬ Trade.Attachable signed →
        ∃ cause : ContextError, cause.Oversize ∧
          venue.quote vaults sender order choice counterparty signed =
            .error (.context cause)) := by
  refine ⟨?_, ?_⟩
  · intro p settings entry scratch c c' hagree
    exact Program.eval_congr hagree settings scratch
  · intro venue vaults sender counterparty order choice hcolumns signed haccepted
    refine ⟨?_, ?_⟩
    · intro signed' haccepted' hattachable hattachable'
      exact Venue.quote_alike hcolumns haccepted haccepted' hattachable hattachable'
    · rintro ⟨input, output⟩ hlegs hattachable
      exact Venue.quote_oversize hlegs haccepted hattachable

namespace Book

/-- A row of so many zeroes, with a signature that is accepted. -/
def zeroRow (rows : Nat) : SignedRow := ⟨.ofNat 7, [], List.replicate rows 0⟩

/-- An order that names no column at all is quoted to a taker who attaches nothing, and is refused
to one who attaches eleven short rows or a single one that is longer than a column, although all of
these are accepted. -/
theorem quote_crowded :
    (∀ column ∈ parOrder.program.columns 0, column < Trade.ownColumns) ∧
    (∀ row ∈ List.replicate 11 (zeroRow 1), row.accepted parVenue.verify = true) ∧
    (zeroRow 257).accepted parVenue.verify = true ∧
    ∃ q, parVenue.quote (.on facingBook.vaults) (.ofNat 2) parOrder ⟨0, 0⟩ (.ofNat 2) [] = .ok q ∧
      parVenue.quote (.on facingBook.vaults) (.ofNat 2) parOrder ⟨0, 0⟩ (.ofNat 2)
        (List.replicate 11 (zeroRow 1)) = .error (.context (.tooManyColumns 17)) ∧
      parVenue.quote (.on facingBook.vaults) (.ofNat 2) parOrder ⟨0, 0⟩ (.ofNat 2) [zeroRow 257] =
        .error (.context (.tooManyRows 6 257)) ∧
      ¬ Alike Quote.SameOffer
        (parVenue.quote (.on facingBook.vaults) (.ofNat 2) parOrder ⟨0, 0⟩ (.ofNat 2) [])
        (parVenue.quote (.on facingBook.vaults) (.ofNat 2) parOrder ⟨0, 0⟩ (.ofNat 2)
          (List.replicate 11 (zeroRow 1))) := by
  have hlegs : parOrder.legs ⟨0, 0⟩ = .ok (⟨.ofNat 3, 18, 0⟩, ⟨.ofNat 4, 18, 0⟩) := rfl
  have haccepted : ∀ row : SignedRow, row.accepted parVenue.verify = true := fun _ => rfl
  have hoffer : (parVenue.quote (.on facingBook.vaults) (.ofNat 2) parOrder ⟨0, 0⟩ (.ofNat 2)
      []).toOption.map Quote.toOffer = some ⟨5, 1000000000000000000⟩ := by
    decide +kernel
  obtain ⟨q, hquote, _⟩ := exists_of_toOption_map_eq_some hoffer
  have hmany : parVenue.quote (.on facingBook.vaults) (.ofNat 2) parOrder ⟨0, 0⟩ (.ofNat 2)
      (List.replicate 11 (zeroRow 1)) = .error (.context (.tooManyColumns 17)) := by
    apply Venue.quote_of_ofColumns_error hlegs fun row _ => haccepted row
    exact Context.ofColumns_eq_error_iff.mpr (.inl ⟨by decide, rfl⟩)
  have hlength : (zeroRow 257).words.length = 257 := List.length_replicate
  have hlong : parVenue.quote (.on facingBook.vaults) (.ofNat 2) parOrder ⟨0, 0⟩ (.ofNat 2)
      [zeroRow 257] = .error (.context (.tooManyRows 6 257)) := by
    apply Venue.quote_of_ofColumns_error hlegs fun row _ => haccepted row
    rw [Trade.ofColumns_of_long (by rw [hlength]; decide), hlength]
    rfl
  refine ⟨by decide, fun row _ => haccepted row, haccepted _, q, hquote, hmany, hlong, ?_⟩
  rw [hquote, hmany]
  nofun

/-- The second order is quoted alike without rows and with ten, which fill the context, and
approves of trades alike in both contexts; with an eleventh row there is no quote. -/
theorem columns_noninterference_ten_rows : ∃ p q : Quote,
    parVenue.quote (.on facingBook.vaults) (.ofNat 2) halfOrder ⟨0, 0⟩ (.ofNat 2) [] = .ok p ∧
    parVenue.quote (.on facingBook.vaults) (.ofNat 2) halfOrder ⟨0, 0⟩ (.ofNat 2)
      (List.replicate 10 (zeroRow 1)) = .ok q ∧
    p.SameOffer q ∧ p.context.columns.length = 5 ∧ q.context.columns.length = 16 ∧
    p.context.AgreeOn (halfProgram.columns 1) q.context ∧
    halfProgram.eval parVenue.settings ⟨1, 0⟩ p.context p.scratch =
      halfProgram.eval parVenue.settings ⟨1, 0⟩ q.context p.scratch ∧
    ∃ cause : ContextError, cause.Oversize ∧
      parVenue.quote (.on facingBook.vaults) (.ofNat 2) halfOrder ⟨0, 0⟩ (.ofNat 2)
        (List.replicate 11 (zeroRow 1)) = .error (.context cause) := by
  obtain ⟨heval, hquotes⟩ := columns_noninterference
  have haccepted : ∀ rows : List SignedRow, ∀ row ∈ rows, row.accepted parVenue.verify = true :=
    fun _ _ _ => rfl
  have hwidth : (parVenue.quote (.on facingBook.vaults) (.ofNat 2) halfOrder ⟨0, 0⟩ (.ofNat 2)
      []).toOption.map (fun p => p.context.columns.length) = some 5 := by
    decide +kernel
  have hwidth' : (parVenue.quote (.on facingBook.vaults) (.ofNat 2) halfOrder ⟨0, 0⟩ (.ofNat 2)
      (List.replicate 10 (zeroRow 1))).toOption.map (fun q => q.context.columns.length) =
        some 16 := by
    decide +kernel
  obtain ⟨p, hp, hpWidth⟩ := exists_of_toOption_map_eq_some hwidth
  obtain ⟨q, hq, hqWidth⟩ := exists_of_toOption_map_eq_some hwidth'
  have hshort : ∀ row ∈ List.replicate 10 (zeroRow 1), row.words.length ≤ Context.maxRows := by
    intro row hmem
    rw [List.eq_of_mem_replicate hmem]
    decide
  have hunnamed : ∀ column ∈ halfOrder.program.columns 0, column < Trade.ownColumns := by decide
  have hquotesHalf :=
    hquotes parVenue (.on facingBook.vaults) (.ofNat 2) (.ofNat 2) halfOrder ⟨0, 0⟩
    hunnamed
  have halike := (hquotesHalf [] (haccepted _)).1 _ (haccepted (List.replicate 10 (zeroRow 1)))
    ⟨by decide, List.forall_mem_nil _⟩ ⟨by decide, hshort⟩
  rw [hp, hq] at halike
  cases halike with
  | ok hsame =>
    have hagree : p.context.AgreeOn (halfProgram.columns 1) q.context :=
      Context.agreeOn_of_take_eq hsame.own (by decide)
    refine ⟨p, q, hp, hq, hsame, hpWidth, hqWidth, hagree, ?_, ?_⟩
    · exact heval halfProgram parVenue.settings ⟨1, 0⟩ p.scratch p.context q.context hagree
    · have hcrowded : ¬ Trade.Attachable (List.replicate 11 (zeroRow 1)) := by
        rintro ⟨hroom, _⟩
        exact absurd hroom (by decide)
      exact (hquotesHalf _ (haccepted _)).2 (⟨.ofNat 4, 18, 0⟩, ⟨.ofNat 3, 18, 0⟩) rfl hcrowded

end Book

end Bourse
