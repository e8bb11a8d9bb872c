import Mathlib.Data.Finset.Insert
import Mathlib.Data.Finset.Erase
import Bourse.Proofs.Book.Performed

/-!
# Replaying the log

The log alone tells the balances and the listed orders. A ledger is kept by entering the events
one after the other: a listing or a removal is of the hash that its entry shows, and every other
event posts what it moves, except that the two events of a match tell their movements only together,
so a match is remembered until its amounts are known.
-/

namespace Bourse

open Book

/-- What a reader of the log keeps. -/
structure Ledger where
  /-- The balances of the vaults. -/
  balance : VaultKey → Int
  /-- The listed orders. -/
  live : Finset OrderHash
  /-- A match whose amounts are not known yet: who matches, the two orders, and how. -/
  matching : Option (Address × Order × Order × ClearTerms)

namespace Ledger

/-- The ledger of the empty log. -/
def empty : Ledger := ⟨fun _ => 0, ∅, none⟩

/-- Make postings. -/
def post (l : Ledger) (ps : List Posting) : Ledger :=
  { l with balance := fun key => l.balance key + Posting.net ps key }

/-- Enter an event. -/
def enter (l : Ledger) : Event → Ledger
  | .listed _ _ _ hash => { l with live := insert hash l.live }
  | .removed _ _ hash => { l with live := l.live.erase hash }
  | .matching sender a b terms => { l with matching := some (sender, a, b, terms) }
  | .cleared _ crossing =>
    match l.matching with
    | some (sender, a, b, terms) =>
      { l.post (terms.postings sender a b crossing) with matching := none }
    | none => l
  | e => l.post e.postings

/-- The ledger of a log. -/
def replay (log : List Event) : Ledger := log.foldl enter empty

/-- The ledger shows the balances and the listed orders of a book. -/
structure Tracks (l : Ledger) (book : Book) : Prop where
  balance : ∀ key, l.balance key = (book.vaults.balance key).toNat
  live : ∀ hash, hash ∈ l.live ↔ book.isLive hash = true
  matching : l.matching = none

theorem balance_post (l : Ledger) (ps : List Posting) (key : VaultKey) :
    (l.post ps).balance key = l.balance key + Posting.net ps key := rfl

@[simp] theorem post_nil (l : Ledger) : l.post [] = l := by
  simp [post]

/-- Postings can be made in two parts. -/
theorem post_append (l : Ledger) (ps qs : List Posting) :
    l.post (ps ++ qs) = (l.post ps).post qs := by
  simp only [post, Posting.net_append, Int.add_assoc]

/-- A taker's request posts what its events move. -/
theorem foldl_enter_ofTaking {book : Book} {sender : Address} {request : TakeRequest}
    {events : List Event} (h : ∀ e ∈ events, e.OfTaking book sender request) (l : Ledger) :
    events.foldl enter l = l.post (events.flatMap Event.postings) := by
  induction events generalizing l with
  | nil => simp
  | cons e events ih =>
    have henter : l.enter e = l.post e.postings := by
      have hof := h e (List.mem_cons_self ..)
      cases hof <;> rfl
    have hrest := ih (fun d hd => h d (List.mem_cons_of_mem _ hd)) (l.post e.postings)
    rw [List.foldl_cons, henter, hrest, List.flatMap_cons, post_append]

/-- The events of a match post all that it moves. -/
theorem foldl_enter_clear {venue : Venue} {book : Book} {sender : Address} {request : ClearRequest}
    {aInput aOutput bInput bOutput : Leg} {p q : Quote} {crossing : Crossing} {journal : Journal}
    (h : ClearStep book venue sender request aInput aOutput bInput bOutput p q crossing journal)
    {l : Ledger} (hmatching : l.matching = none) :
    journal.events.foldl enter l =
      l.post (request.terms.postings sender request.a request.b crossing) := by
  rw [h.events]
  simp only [List.foldl_cons, List.foldl_nil, enter, Event.postings, post_nil]
  rw [← hmatching]
  rfl

/-- Postings made in a book and in its ledger keep them together. -/
theorem Tracks.extend {l : Ledger} {before after : Book} {events : List Event} {ps : List Posting}
    (h : l.Tracks before) (hextends : Extends before after events ps) :
    (l.post ps).Tracks after := by
  constructor
  · intro key
    rw [balance_post, h.balance key, hextends.posted key]
  · intro hash
    rw [isLive, hextends.live]
    exact h.live hash
  · exact h.matching

/-- A ledger follows a book through each request by entering the events of the request. -/
theorem Tracks.performed {venue : Venue} {book after : Book} {op : Operation} {receipt : Receipt}
    {events : List Event} {l : Ledger} (hl : l.Tracks book)
    (h : Performed venue book op receipt after events) : (events.foldl enter l).Tracks after := by
  cases h with
  | @addOrder sender request program order _ deploy order_eq events_eq =>
    subst events_eq
    refine ⟨?_, ?_, hl.matching⟩
    · intro key
      simpa [enter, Event.postings] using hl.balance key
    · intro hash
      have hlive := hl.live hash
      simp only [List.foldl_cons, List.foldl_nil, enter, Event.postings, post_nil,
        Finset.mem_insert, isLive, SortedMap.contains_insert] at hlive ⊢
      rw [hlive]
  | @removeOrder sender order owner =>
    refine ⟨hl.balance, ?_, hl.matching⟩
    intro hash
    have hlive := hl.live hash
    simp only [List.foldl_cons, List.foldl_nil, enter, Finset.mem_erase, isLive,
      SortedMap.contains_erase] at hlive ⊢
    rw [hlive]
  | deposit extend => exact hl.extend extend
  | withdraw capped extend => exact hl.extend extend
  | takeOrders extend total cost ofTaking =>
    rw [foldl_enter_ofTaking ofTaking]
    exact hl.extend extend
  | clear step extend =>
    rw [foldl_enter_clear step hl.matching]
    exact hl.extend extend
  | drain => exact ⟨hl.balance, hl.live, hl.matching⟩

/-- After every sequence of requests, the ledger of all events from the first one on shows the
balance of every vault and the listed orders. -/
theorem replay_tracks_run (venue : Venue) (ops : List Operation) :
    (replay (chronicle (history venue Book.empty ops) (run venue Book.empty ops).2)).Tracks
      (run venue Book.empty ops).2 := by
  refine run_induction (P := fun past book => (replay (chronicle past book)).Tracks book) ?_ ?_ ?_
    ops
  · refine ⟨fun key => rfl, ?_, rfl⟩
    intro hash
    simp [replay, chronicle, Book.empty, Ledger.empty, isLive, SortedMap.contains]
  · intro past book op receipt after events ih hperformed
    rw [hperformed.chronicle_eq, replay, List.foldl_append]
    exact ih.performed hperformed
  · intro past book op cause ih
    rw [chronicle_refused]
    exact ih

end Ledger

end Bourse
