import Docket.Proofs.Recording.Content

/-!
# The journal of a session

A session keeps a journal beside the fields of its blocks: what has been assigned to
each block, in the order in which it was stored. Nothing ever reads it; it is there to
say where fields come from, since the fields of a block are what its journal comes to
when it is read from its beginning.

Work only ever adds to what a session has recorded. However it ends, there are at least
as many blocks as before, and the fields of each block are those it had before with
what the journal has gained since assigned to them in order (`Session.Onward`).

## Main definitions

* `Session.assigned`, `Session.opened`: A session after the two steps that record
  something.
* `Session.Paired`: Every block has a journal.
* `Session.Onward`: A session in which nothing was lost that another one had recorded.

## Theorems

* `fields_assigned`, `assignments_assigned`: Fields and journals after an assignment.
* `Onward.assigned`, `Onward.opened`, `Onward.draws`: Single steps lose nothing.
-/

namespace Docket

theorem Fields.merge_append (fs news more : Fields) :
    fs.merge (news ++ more) = (fs.merge news).merge more := List.foldl_append

namespace Session

/-! ## Single steps -/

/-- A session with a field of a block assigned. -/
def assigned (s : Session) (id : Nat) (name : Name) (v : Value) : Session :=
  { s with
    blocks := s.blocks.modify id fun fs => fs.set name v
    history := s.history.modify id fun before => before ++ [(name, v)] }

/-- A session with one more block, without fields. -/
def opened (s : Session) : Session :=
  { s with blocks := s.blocks.push [], history := s.history.push [] }

theorem fields_assigned (s : Session) {id : Nat} (name : Name) (v : Value) (i : Nat)
    (hid : id < s.blocks.size) :
    (s.assigned id name v).fields i =
      if i = id then (s.fields id).set name v else s.fields i := by
  unfold assigned fields
  simp only [Array.getElem?_modify]
  -- The block has to exist, since otherwise nothing is assigned.
  by_cases hi : i = id
  · rw [if_pos hi.symm, if_pos hi, hi, Array.getElem?_eq_getElem hid]
    rfl
  · rw [if_neg fun h => hi h.symm, if_neg hi]

theorem fields_assigned_ne (s : Session) {id i : Nat} (name : Name) (v : Value) (hi : i ≠ id) :
    (s.assigned id name v).fields i = s.fields i := by
  unfold assigned fields
  simp only [Array.getElem?_modify]
  rw [if_neg fun h => hi h.symm]

theorem size_assigned (s : Session) (id : Nat) (name : Name) (v : Value) :
    (s.assigned id name v).blocks.size = s.blocks.size := Array.size_modify

theorem assignments_assigned (s : Session) {id : Nat} (name : Name) (v : Value)
    (hid : id < s.history.size) :
    (s.assigned id name v).assignments id = s.assignments id ++ [(name, v)] := by
  unfold assigned assignments
  simp only [Array.getElem?_modify, if_true]
  rw [Array.getElem?_eq_getElem hid]
  rfl

theorem assignments_assigned_ne (s : Session) {id i : Nat} (name : Name) (v : Value)
    (hi : i ≠ id) : (s.assigned id name v).assignments i = s.assignments i := by
  unfold assigned assignments
  simp only [Array.getElem?_modify]
  rw [if_neg fun h => hi h.symm]

theorem size_opened (s : Session) : s.opened.blocks.size = s.blocks.size + 1 := Array.size_push _

theorem getD_push_nil (blocks : Array Fields) (i : Nat) :
    (blocks.push [])[i]?.getD [] = blocks[i]?.getD [] := by
  rw [Array.getElem?_push]
  by_cases hi : i = blocks.size
  · rw [if_pos hi, hi, Array.getElem?_eq_none (Nat.le_refl _)]
    rfl
  · rw [if_neg hi]

theorem getD_modify_of_le {blocks : Array Fields} {i : Nat} (f : Fields → Fields)
    (h : blocks.size ≤ i) : (blocks.modify i f)[i]?.getD [] = blocks[i]?.getD [] := by
  rw [Array.getElem?_modify, if_pos rfl, Array.getElem?_eq_none h]
  rfl

theorem fields_opened (s : Session) (i : Nat) : s.opened.fields i = s.fields i :=
  getD_push_nil s.blocks i

theorem assignments_opened (s : Session) (i : Nat) :
    s.opened.assignments i = s.assignments i := getD_push_nil s.history i

/-! ## What is recorded -/

/-- Every block has a journal. -/
def Paired (s : Session) : Prop := s.history.size = s.blocks.size

/-- Nothing was lost that another session had recorded: leaf nodes that were made by
    hand, blocks, and fields, to which the journal has been assigned since. -/
structure Onward (s s' : Session) : Prop where
  leaves : ∀ v ∈ s.leaves, v ∈ s'.leaves
  size : s.blocks.size ≤ s'.blocks.size
  paired : s.Paired → s'.Paired
  since : s.Paired → ∀ i, ∃ news, s'.assignments i = s.assignments i ++ news ∧
    s'.fields i = (s.fields i).merge news

namespace Onward

variable {s s' t : Session}

/-- Steps that change no block and no journal. -/
theorem of_eq (hleaves : ∀ v ∈ s.leaves, v ∈ s'.leaves) (hblocks : s'.blocks = s.blocks)
    (hhistory : s'.history = s.history) : s.Onward s' where
  leaves := hleaves
  size := Nat.le_of_eq (congrArg Array.size hblocks).symm
  paired h := by
    unfold Paired
    rw [hblocks, hhistory]
    exact h
  since _ i := by
    unfold assignments fields
    rw [hblocks, hhistory]
    exact ⟨[], (List.append_nil _).symm, rfl⟩

theorem refl (s : Session) : s.Onward s := of_eq (fun _ h => h) rfl rfl

theorem draws (h : Draws s s') : s.Onward s' := of_eq h.leaves h.blocks h.history

theorem trans (h : s.Onward s') (h' : s'.Onward t) : s.Onward t where
  leaves v hv := h'.leaves v (h.leaves v hv)
  size := Nat.le_trans h.size h'.size
  paired hs := h'.paired (h.paired hs)
  since hs i := by
    -- What both parts have added is assigned in this order.
    rcases h.since hs i with ⟨news, hjournal, hfields⟩
    rcases h'.since (h.paired hs) i with ⟨more, hjournal', hfields'⟩
    refine ⟨news ++ more, ?_, ?_⟩
    · rw [hjournal', hjournal, List.append_assoc]
    · rw [hfields', hfields, Fields.merge_append]

theorem opened (s : Session) : s.Onward s.opened where
  leaves _ h := h
  size := by
    rw [size_opened]
    exact Nat.le_succ _
  paired hs := by
    unfold Paired Session.opened
    rw [Array.size_push, Array.size_push, hs]
  since _ i := by
    rw [assignments_opened, fields_opened]
    exact ⟨[], (List.append_nil _).symm, rfl⟩

theorem assigned (s : Session) (id : Nat) (name : Name) (v : Value) :
    s.Onward (s.assigned id name v) where
  leaves _ h := h
  size := Nat.le_of_eq (s.size_assigned id name v).symm
  paired hs := by
    unfold Paired Session.assigned
    rw [Array.size_modify, Array.size_modify, hs]
  since hs i := by
    by_cases hi : i = id ∧ id < s.blocks.size
    · rcases hi with ⟨rfl, hlt⟩
      refine ⟨[(name, v)], s.assignments_assigned name v (hs ▸ hlt), ?_⟩
      rw [s.fields_assigned name v i hlt, if_pos rfl]
      rfl
    · -- Neither another block nor one that does not exist changes.
      have hsame : (s.assigned id name v).assignments i = s.assignments i ∧
          (s.assigned id name v).fields i = s.fields i := by
        by_cases hid : i = id
        · subst hid
          have hout : s.blocks.size ≤ i := Nat.le_of_not_lt fun hlt => hi ⟨rfl, hlt⟩
          exact ⟨getD_modify_of_le _ (hs ▸ hout), getD_modify_of_le _ hout⟩
        · exact ⟨s.assignments_assigned_ne name v hid, s.fields_assigned_ne name v hid⟩
      exact ⟨[], by rw [hsame.1, List.append_nil], hsame.2⟩

end Onward

end Session

end Docket
