import Bourse.Order
import Bourse.Proofs.Bytes.Delimited
import Bourse.Proofs.Program.Soundness

/-!
# Bytes that identify

Programs, orders and signed rows are identified by the digest of their bytes. These bytes leave no
choice: a program, an order or a row is the only one with its bytes, as long as its lists are no
longer than their lengths can be written, which the check of a program guarantees. And since the
bytes begin with what they are the bytes of, a program is never written like an order.
-/

namespace Bourse

namespace Deployment

/-- What the check has found does not depend on the number of values that it required. -/
theorem check_nil_of_check {d : Deployment} {required : List Nat} {found : List Heights}
    (h : d.check required = .ok found) : d.check [] = .ok found := by
  rw [check] at h ⊢
  split at h
  · cases h
  next hsources =>
  split at h
  · cases h
  next hconstants =>
  rw [if_neg hsources, if_neg hconstants]
  refine mapM_eq_ok_of_imp h ?_
  rintro ⟨code, index⟩ _ heights hsource
  cases hcode : Code.check d.constants.size (required[index]?.getD 0) code with
  | error flaw =>
    simp only [hcode] at hsource
    cases hsource
  | ok checked =>
    simp only [hcode] at hsource
    cases hsource
    obtain ⟨hfits, haligned, hwalk, _⟩ := Code.check_eq_ok_iff.mp hcode
    have hzero : Code.check d.constants.size 0 code = .ok heights :=
      Code.check_eq_ok_iff.mpr ⟨hfits, haligned, hwalk, Nat.zero_le _⟩
    simp [hzero]

/-- A checked program has no more of anything than its bytes can tell the number of. -/
theorem bounds_of_check {d : Deployment} {required : List Nat} {found : List Heights}
    (h : d.check required = .ok found) :
    d.sources.length ≤ maxSources ∧ d.constants.size ≤ maxConstants ∧
      ∀ code ∈ d.sources, code.length ≤ Code.maxPosition := by
  have hcodes : ∀ code ∈ d.sources, code.length ≤ Code.maxPosition := by
    intro code hmem
    obtain ⟨index, hcode⟩ := List.mem_iff_getElem?.mp hmem
    obtain ⟨heights, _, hcheck⟩ := check_eq_ok h hcode
    exact (Code.check_eq_ok_iff.mp hcheck).1
  rw [check] at h
  split at h
  · cases h
  next hsources =>
  split at h
  · cases h
  next hconstants =>
  exact ⟨Nat.le_of_not_lt hsources, Nat.le_of_not_lt hconstants, hcodes⟩

/-- The fields of a program: its sources and its constants, each list behind its length. -/
theorem preimage_eq (d : Deployment) :
    d.preimage = tag ++ (Bytes.counted 1 (Bytes.counted 2 fun b => [b]) d.sources ++
      Bytes.counted 2 Word.toBytes d.constants.toList) := by
  have hcode : Bytes.counted 2 (fun b => [b]) = fun code => Bytes.bigEndian 2 code.length ++ code :=
    funext (Bytes.counted_singleton 2)
  rw [hcode]
  simp only [preimage, Bytes.counted, Word.concatBytes, Array.length_toList, List.append_assoc]

/-- Checked programs with the same bytes are the same. -/
theorem preimage_inj {d e : Deployment} {required required' : List Nat}
    {found found' : List Heights} (hd : d.check required = .ok found)
    (he : e.check required' = .ok found') (h : d.preimage = e.preimage) : d = e := by
  obtain ⟨hdSources, hdConstants, hdCodes⟩ := bounds_of_check hd
  obtain ⟨heSources, heConstants, heCodes⟩ := bounds_of_check he
  simp only [maxSources, maxConstants, Code.maxPosition] at *
  rw [preimage_eq, preimage_eq] at h
  have hfields := List.append_cancel_left h
  have hbounded : ∀ f : Deployment, (∀ code ∈ f.sources, code.length ≤ 65535) →
      ∀ code ∈ f.sources, code.length < 256 ^ 2 ∧ ∀ b ∈ code, True := by
    intro f hf code hmem
    exact ⟨Nat.lt_of_le_of_lt (hf code hmem) (by decide), fun _ _ => trivial⟩
  obtain ⟨hsources, hrest⟩ := ((Bytes.delimited_singleton.counted 2).counted 1) _ _ _ _
    ⟨by omega, hbounded d hdCodes⟩ ⟨by omega, hbounded e heCodes⟩ hfields
  have hdelimited := Word.delimited_toBytes.counted 2
  obtain ⟨hconstants, _⟩ := hdelimited d.constants.toList e.constants.toList [] []
    ⟨by simp; omega, fun _ _ => trivial⟩ ⟨by simp; omega, fun _ _ => trivial⟩
    (by rw [List.append_nil, List.append_nil, hrest])
  obtain ⟨dSources, dConstants⟩ := d
  obtain ⟨eSources, eConstants⟩ := e
  simp only at hsources hconstants
  rw [hsources, Array.toList_inj.mp hconstants]

end Deployment

namespace Program

/-- A program is determined by its sources and constants. -/
theorem toDeployment_inj {p q : Program} : p.toDeployment = q.toDeployment ↔ p = q := by
  refine ⟨fun h => ?_, fun h => h ▸ rfl⟩
  have hheights : p.heights = q.heights := by
    obtain ⟨required, hp⟩ := p.accepted
    obtain ⟨required', hq⟩ := q.accepted
    have hfound := Deployment.check_nil_of_check hp
    rw [h, Deployment.check_nil_of_check hq] at hfound
    exact (Except.ok.inj hfound).symm
  have hid : p.id = q.id := by rw [p.id_eq, q.id_eq, h]
  cases p
  cases q
  simp only at h hheights hid
  subst h hheights hid
  rfl

/-- Deployed again, with no number of values required, a program stays what it is. -/
theorem deploy_toDeployment (p : Program) : deploy p.toDeployment [] = .ok p := by
  obtain ⟨required, hcheck⟩ := p.accepted
  have hnil := Deployment.check_nil_of_check hcheck
  unfold deploy
  split
  · next cause hrejected =>
    rw [hnil] at hrejected
    cases hrejected
  · exact congrArg _ (toDeployment_inj.mp rfl)

/-- Programs with the same bytes are the same. -/
theorem preimage_inj {p q : Program} (h : p.preimage = q.preimage) : p = q := by
  obtain ⟨_, hp⟩ := p.accepted
  obtain ⟨_, hq⟩ := q.accepted
  exact toDeployment_inj.mp (Deployment.preimage_inj hp hq h)

end Program

namespace Leg

/-- A leg takes 53 bytes: a token, its decimals and a vault. -/
@[simp] theorem length_preimage (leg : Leg) : leg.preimage.length = 53 := by
  simp [preimage]

/-- A leg is told by its bytes. -/
theorem delimited_preimage : Bytes.Delimited (fun _ => True) preimage := by
  refine .of_length length_preimage ?_
  intro a b _ _ h
  obtain ⟨htoken, hrest⟩ := List.append_inj h (by simp)
  obtain ⟨hdecimals, hvault⟩ := List.cons.inj hrest
  obtain ⟨aToken, aDecimals, aVault⟩ := a
  obtain ⟨bToken, bDecimals, bVault⟩ := b
  rw [Leg.mk.injEq]
  exact ⟨Address.toBytes_inj.mp htoken, hdecimals, Word.toBytes_inj.mp hvault⟩

/-- Legs are written behind their number. -/
theorem delimited_listPreimage :
    Bytes.Delimited (fun legs => legs.length < 256 ^ 4 ∧ ∀ leg ∈ legs, True) listPreimage :=
  delimited_preimage.counted 4

end Leg

namespace Order

/-- The fields of an order behind those of a fixed length: each list behind its length. -/
def listBytes (order : Order) : Bytes :=
  Leg.listPreimage order.inputs ++
    (Leg.listPreimage order.outputs ++ Bytes.counted 4 (fun b => [b]) order.data)

/-- The bytes that identify an order are those of its fields, one after the other. -/
theorem preimage_eq (order : Order) :
    order.preimage = tag ++ (order.owner.toBytes ++ ([if order.approves then 1 else 0] ++
      (order.program.id.digest.toBytes ++ order.listBytes))) := by
  simp only [preimage, listBytes, Bytes.counted_singleton, List.append_assoc]

/-- The fields of a fixed length are told by the bytes of an order, however long its lists are. -/
theorem fixed_of_preimage_eq {a b : Order} (h : a.preimage = b.preimage) :
    a.owner = b.owner ∧ a.approves = b.approves ∧ a.program.id = b.program.id ∧
      a.listBytes = b.listBytes := by
  rw [preimage_eq, preimage_eq] at h
  obtain ⟨howner, hrest⟩ := List.append_inj (List.append_cancel_left h) (by simp)
  obtain ⟨happroves, hrest⟩ := List.append_inj hrest rfl
  obtain ⟨hid, hlists⟩ := List.append_inj hrest (by simp)
  refine ⟨Address.toBytes_inj.mp howner, ?_, ?_, hlists⟩
  · cases ha : a.approves <;> cases hb : b.approves <;> simp [ha, hb] at happroves ⊢
  · exact congrArg ProgramId.mk (Word.toBytes_inj.mp hid)

/-- The lists of an order are short enough for their lengths to be written. -/
def Countable (order : Order) : Prop :=
  order.inputs.length < 2 ^ 32 ∧ order.outputs.length < 2 ^ 32 ∧ order.data.length < 2 ^ 32

/-- The lists are told by their bytes if their lengths can be written. -/
theorem lists_of_listBytes_eq {a b : Order} (ha : a.Countable) (hb : b.Countable)
    (h : a.listBytes = b.listBytes) :
    a.inputs = b.inputs ∧ a.outputs = b.outputs ∧ a.data = b.data := by
  obtain ⟨haInputs, haOutputs, haData⟩ := ha
  obtain ⟨hbInputs, hbOutputs, hbData⟩ := hb
  obtain ⟨hinputs, hrest⟩ := Leg.delimited_listPreimage _ _ _ _ ⟨haInputs, fun _ _ => trivial⟩
    ⟨hbInputs, fun _ _ => trivial⟩ h
  obtain ⟨houtputs, hdata⟩ := Leg.delimited_listPreimage _ _ _ _ ⟨haOutputs, fun _ _ => trivial⟩
    ⟨hbOutputs, fun _ _ => trivial⟩ hrest
  obtain ⟨hdata, _⟩ := Bytes.delimited_singleton.counted 4 _ _ [] [] ⟨haData, fun _ _ => trivial⟩
    ⟨hbData, fun _ _ => trivial⟩ (by rw [hdata])
  exact ⟨hinputs, houtputs, hdata⟩

end Order

/-- A program is never written like an order: their bytes differ within the tags. -/
theorem Deployment.preimage_ne_order (d : Deployment) (order : Order) :
    d.preimage ≠ order.preimage := by
  intro h
  rw [Deployment.preimage_eq, Order.preimage_eq] at h
  have hdiffer : Deployment.tag.take 20 ≠ Order.tag.take 20 := by decide
  have htake := congrArg (List.take 20) h
  rw [List.take_append_of_le_length (by decide), List.take_append_of_le_length (by decide)] at htake
  exact hdiffer htake

/-- Bytes that identify leave no choice. Programs that were deployed, with whatever numbers of
values required, are the same if they are written with the same bytes, and a program can be
deployed again from its parts. Orders whose lists are not too long, and rows of words, are told by
their bytes. No program is written like an order. -/
theorem preimages_unambiguous :
    (∀ d e required required' p q, Program.deploy d required = .ok p →
      Program.deploy e required' = .ok q → p.preimage = q.preimage →
      p.sources = q.sources ∧ p.constants = q.constants ∧ p.heights = q.heights) ∧
    (∀ d required p, Program.deploy d required = .ok p → Program.deploy p.toDeployment [] = .ok p) ∧
    (∀ a b : Order, a.Countable → b.Countable → a.preimage = b.preimage →
      a.owner = b.owner ∧ a.approves = b.approves ∧ a.program.id = b.program.id ∧
        a.inputs = b.inputs ∧ a.outputs = b.outputs ∧ a.data = b.data) ∧
    (∀ ws vs, Word.concatBytes ws = Word.concatBytes vs → ws = vs) ∧
    ∀ (d : Deployment) (order : Order), d.preimage ≠ order.preimage := by
  refine ⟨?_, ?_, ?_, ?_, Deployment.preimage_ne_order⟩
  · intro d e required required' p q _ _ h
    have hsame := Program.preimage_inj h
    exact ⟨by rw [hsame], by rw [hsame], by rw [hsame]⟩
  · intro d required p _
    exact p.deploy_toDeployment
  · intro a b ha hb h
    obtain ⟨howner, happroves, hid, hlists⟩ := Order.fixed_of_preimage_eq h
    exact ⟨howner, happroves, hid, Order.lists_of_listBytes_eq ha hb hlists⟩
  · intro ws vs h
    exact Word.concatBytes_inj.mp h

end Bourse
