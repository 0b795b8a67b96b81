import Docket.MessagePack.Reader
import Docket.MessagePack.Writer
import Docket.Proofs.Bytes
import Docket.Proofs.Payload.Preparation
import Docket.Proofs.Text.Utf8

/-!
# Packing

The values that written bytes are read as. The first byte of an item tells its kind,
and the ranges that it may lie in do not overlap, so what the writer puts there the
reader finds: a small number, or the lead of a larger one in so many bytes. Those of
leaves are read by `shape_leaf` and then by what the lead says; the leads of lists and
mappings are the ones in between.

Steps are counted as in the other formats: at most two for each byte.

## Main definitions

* `Packs`: Bytes that are read as a value, whatever follows.
* `PacksItems`, `PacksMembers`: The same for the inside of a collection.

## Theorems

* `messagePackSized_cases`: A size has the first width that holds it.
* `packs_int`, `packs_float`, `packs_text`: Values without parts.
* `PacksItems.list`, `PacksMembers.dict`: Values with parts.
-/

namespace Docket

/-- A byte that begins no list and no mapping. -/
theorem shape_leaf {lead : UInt8} (h : lead < 0x80 ∨ 0xA0 ≤ lead ∧ lead < 0xDC ∨ 0xDF < lead)
    (rest : Bytes) : messagePackShape? lead rest = some (.leaf, rest) := by
  unfold messagePackShape?
  rw [if_neg (by grind), if_neg (by grind)]
  split
  · exact absurd h (by decide)
  · exact absurd h (by decide)
  · exact absurd h (by decide)
  · exact absurd h (by decide)
  · rfl

/-- Bytes that are read as a value, whatever follows. -/
structure Packs (bytes : Bytes) (v : Value) : Prop where
  length_pos : 0 < bytes.length
  reads : ∀ fuel rest, 2 * bytes.length ≤ fuel →
    readMessagePackItem fuel (bytes ++ rest) = some (v, rest)

/-- A value whose first byte begins no list and no mapping. -/
theorem packs_leaf {lead : UInt8} {tail : Bytes} {v : Value}
    (hlead : lead < 0x80 ∨ 0xA0 ≤ lead ∧ lead < 0xDC ∨ 0xDF < lead)
    (h : ∀ rest, readMessagePackLeaf lead (tail ++ rest) = some (v, rest)) :
    Packs (lead :: tail) v where
  length_pos := Nat.succ_pos _
  reads := by
    intro fuel rest hfuel
    cases fuel with
    | zero =>
        rw [List.length_cons] at hfuel
        omega
    | succ fuel =>
        rw [List.cons_append, readMessagePackItem, shape_leaf hlead]
        exact h rest

/-- A small number in the first byte. -/
theorem toNat_lead (base n : Nat) (h : base + n < 256) :
    (UInt8.ofNat (base + n)).toNat = base + n :=
  UInt8.toNat_ofNat_of_lt' h

/-- Such a byte is from the range that is left for the numbers. -/
theorem lead_bounds (base n top : Nat) (hn : base + n < top) (htop : top < 256) :
    UInt8.ofNat base ≤ UInt8.ofNat (base + n) ∧ UInt8.ofNat (base + n) < UInt8.ofNat top := by
  have hbase : (UInt8.ofNat base).toNat = base :=
    UInt8.toNat_ofNat_of_lt' (show base < 256 by omega)
  have hlast : (UInt8.ofNat top).toNat = top := UInt8.toNat_ofNat_of_lt' htop
  rw [UInt8.le_iff_toNat_le, UInt8.lt_iff_toNat_lt, toNat_lead base n (by omega), hbase, hlast]
  exact ⟨Nat.le_add_right base n, hn⟩

/-- A size has the first width that holds it. -/
theorem messagePackSized_cases {leads : List (UInt8 × Nat)} {n : Nat} {bytes : Bytes}
    (h : messagePackSized leads n = some bytes) :
    ∃ l ∈ leads, n < 2 ^ (8 * l.2) ∧ bytes = l.1 :: bigEndian l.2 n := by
  induction leads with
  | nil => exact absurd h nofun
  | cons l rest ih =>
      rw [messagePackSized] at h
      by_cases hn : n < 2 ^ (8 * l.2)
      · rw [if_pos hn] at h
        exact ⟨l, List.mem_cons_self, hn, (Option.some.inj h).symm⟩
      · rw [if_neg hn] at h
        rcases ih h with ⟨l', hl', hn', hbytes⟩
        exact ⟨l', List.mem_cons_of_mem l hl', hn', hbytes⟩

/-- A head has its number in the first byte, or after one of its leads. -/
theorem messagePackHead_cases {base room : Nat} {leads : List (UInt8 × Nat)} {n : Nat}
    {bytes : Bytes} (h : messagePackHead? base room leads n = some bytes) :
    n < room ∧ bytes = [UInt8.ofNat (base + n)] ∨
      ∃ l ∈ leads, n < 2 ^ (8 * l.2) ∧ bytes = l.1 :: bigEndian l.2 n := by
  unfold messagePackHead? at h
  by_cases hn : n < room
  · rw [if_pos hn] at h
    exact Or.inl ⟨hn, (Option.some.inj h).symm⟩
  · rw [if_neg hn] at h
    exact Or.inr (messagePackSized_cases h)

theorem packs_natural {n : Nat} {bytes : Bytes}
    (h : messagePackHead? 0 128 naturalLeads n = some bytes) : Packs bytes (.int n) := by
  have hread : ∀ {width : Nat} (rest : Bytes), n < 2 ^ (8 * width) →
      readMessagePackNatural width (bigEndian width n ++ rest) = some (.int n, rest) := by
    intro width rest hn
    rw [readMessagePackNatural, takeNumber?_bigEndian hn, Option.map_some]
  rcases messagePackHead_cases h with ⟨hn, rfl⟩ | ⟨l, hl, hn, rfl⟩
  · have hnat := toNat_lead 0 n (by omega)
    have hsmall : UInt8.ofNat (0 + n) < 0x80 := by
      rw [UInt8.lt_iff_toNat_lt, hnat, Nat.zero_add]
      exact hn
    refine packs_leaf (Or.inl hsmall) fun rest => ?_
    rw [List.nil_append]
    unfold readMessagePackLeaf
    rw [if_pos hsmall, hnat, Nat.zero_add]
  · unfold naturalLeads at hl
    simp only [List.mem_cons, List.not_mem_nil, or_false] at hl
    -- After its lead the number follows in one, two, four or eight bytes.
    rcases hl with rfl | rfl | rfl | rfl
    · exact packs_leaf (by decide) fun rest => hread rest hn
    · exact packs_leaf (by decide) fun rest => hread rest hn
    · exact packs_leaf (by decide) fun rest => hread rest hn
    · exact packs_leaf (by decide) fun rest => hread rest hn

theorem packs_negative {n : Int} (hneg : n < 0) {bytes : Bytes}
    (h : messagePackNegative? n = some bytes) : Packs bytes (.int n) := by
  -- In any width that holds it the number is read from its two's complement.
  have hread : ∀ (width : Nat) (rest : Bytes), 0 < width → -(2 ^ (8 * width - 1) : Nat) ≤ n →
      readMessagePackSigned width (bigEndian width (n + 2 ^ (8 * width)).toNat ++ rest) =
        some (.int n, rest) := by
    intro width rest hwidth hn
    rcases signedValue_ofNegative hwidth hneg hn with ⟨hlt, hvalue⟩
    rw [readMessagePackSigned, takeNumber?_bigEndian hlt, Option.map_some, hvalue]
  unfold messagePackNegative? at h
  simp only [] at h
  split at h
  next hn =>
    cases h
    have hrange : (n + 256).toNat < 256 ∧ 224 ≤ (n + 256).toNat := by omega
    have hnat : (UInt8.ofNat (n + 256).toNat).toNat = (n + 256).toNat :=
      UInt8.toNat_ofNat_of_lt' hrange.1
    have hlarge : 0xE0 ≤ UInt8.ofNat (n + 256).toNat := by
      rw [UInt8.le_iff_toNat_le, hnat]
      exact hrange.2
    have hvalue : (((n + 256).toNat : Nat) : Int) - 256 = n := by omega
    refine packs_leaf (by grind) fun rest => ?_
    rw [List.nil_append]
    unfold readMessagePackLeaf
    rw [if_neg (by grind), if_pos hlarge, hnat, hvalue]
  next =>
    split at h
    next hn =>
      cases h
      exact packs_leaf (by decide) fun rest => hread 1 rest (by decide) hn
    next =>
      split at h
      next hn =>
        cases h
        exact packs_leaf (by decide) fun rest => hread 2 rest (by decide) hn
      next =>
        split at h
        next hn =>
          cases h
          exact packs_leaf (by decide) fun rest => hread 4 rest (by decide) hn
        next =>
          split at h
          next hn =>
            cases h
            exact packs_leaf (by decide) fun rest => hread 8 rest (by decide) hn
          next => exact absurd h nofun

theorem packs_int {n : Int} {bytes : Bytes} (h : messagePackInt? n = some bytes) :
    Packs bytes (.int n) := by
  unfold messagePackInt? at h
  by_cases hn : 0 ≤ n
  · rw [if_pos hn] at h
    have hpacks := packs_natural h
    rw [Int.toNat_of_nonneg hn] at hpacks
    exact hpacks
  · rw [if_neg hn] at h
    exact packs_negative (Int.not_le.mp hn) h

theorem packs_float (x : Binary64) : Packs (messagePackFloat x) (.float x) := by
  refine packs_leaf (by decide) fun rest => ?_
  change (takeNumber? 8 (bigEndian 8 x.bits.toNat ++ rest)).map
    (fun r => (Value.float ⟨UInt64.ofNat r.1⟩, r.2)) = _
  rw [takeNumber?_bigEndian x.bits.toNat_lt, Option.map_some, UInt64.ofNat_toNat]

/-- A text after its size. -/
theorem readMessagePackText_append (s : String) (rest : Bytes) :
    readMessagePackText (encodeUtf8 s.toList).length (encodeUtf8 s.toList ++ rest) =
      some (.text s, rest) := by
  unfold readMessagePackText
  rw [takeBytes?_append]
  simp only [Option.bind_eq_bind, Option.bind_some]
  rw [decodeStrictUtf8?_encodeUtf8, Option.bind_some, String.ofList_toList]
  rfl

theorem packs_text {s : String} {bytes : Bytes} (h : messagePackText? s = some bytes) :
    Packs bytes (.text s) := by
  unfold messagePackText? at h
  rcases Option.map_eq_some_iff.mp h with ⟨head, hhead, rfl⟩
  -- A short text has its length in the lead byte, and any other one behind it.
  rcases messagePackHead_cases hhead with ⟨hn, rfl⟩ | ⟨l, hl, hn, rfl⟩
  · have hnat := toNat_lead 0xA0 (encodeUtf8 s.toList).length (by omega)
    have hlead : 0xA0 ≤ UInt8.ofNat (0xA0 + (encodeUtf8 s.toList).length) ∧
        UInt8.ofNat (0xA0 + (encodeUtf8 s.toList).length) < 0xC0 :=
      lead_bounds 0xA0 _ 0xC0 (by omega) (by decide)
    refine packs_leaf (by grind) fun rest => ?_
    unfold readMessagePackLeaf
    rw [if_neg (by grind), if_neg (by grind), if_pos hlead, hnat, Nat.add_sub_cancel_left]
    exact readMessagePackText_append s rest
  · have hread : ∀ {width : Nat} (rest : Bytes), (encodeUtf8 s.toList).length < 2 ^ (8 * width) →
        ((takeNumber? width (bigEndian width (encodeUtf8 s.toList).length ++
          encodeUtf8 s.toList ++ rest)).bind fun r => readMessagePackText r.1 r.2) =
            some (.text s, rest) := by
      intro width rest hw
      rw [List.append_assoc, takeNumber?_bigEndian hw, Option.bind_some]
      exact readMessagePackText_append s rest
    unfold textLeads at hl
    simp only [List.mem_cons, List.not_mem_nil, or_false] at hl
    rcases hl with rfl | rfl | rfl
    · exact packs_leaf (by decide) fun rest => hread rest hn
    · exact packs_leaf (by decide) fun rest => hread rest hn
    · exact packs_leaf (by decide) fun rest => hread rest hn

/-- Bytes that are read as the items of a list, whatever follows. -/
def PacksItems (bytes : Bytes) (vs : List Value) : Prop :=
  ∀ fuel done rest, 2 * bytes.length + 1 ≤ fuel →
    readMessagePackItems fuel vs.length done (bytes ++ rest) = some (done.reverse ++ vs, rest)

theorem PacksItems.nil : PacksItems [] [] := by
  intro fuel done rest _
  rw [List.append_nil, List.length_nil, readMessagePackItems]
  rfl

theorem PacksItems.cons {first bytes : Bytes} {v : Value} {vs : List Value} (hfirst : Packs first v)
    (h : PacksItems bytes vs) : PacksItems (first ++ bytes) (v :: vs) := by
  intro fuel done rest hfuel
  have hpos := hfirst.length_pos
  rw [List.length_append] at hfuel
  cases fuel with
  | zero => omega
  | succ fuel =>
      rw [List.append_assoc, List.length_cons, readMessagePackItems,
        hfirst.reads fuel _ (by omega)]
      have hrest := h fuel (v :: done) rest (by omega)
      rw [List.reverse_cons, List.append_assoc, List.singleton_append] at hrest
      exact hrest

/-- A list or a mapping, if what follows its head is read. -/
theorem packs_collection {base room : Nat} {leads : List (UInt8 × Nat)} {n : Nat} {head : Bytes}
    (shape : Nat → MessagePackShape) {bytes : Bytes} {v : Value}
    (hhead : messagePackHead? base room leads n = some head)
    (hsmall : n < room → ∀ rest,
      messagePackShape? (UInt8.ofNat (base + n)) rest = some (shape n, rest))
    (hlarge : ∀ l ∈ leads, ∀ rest, messagePackShape? l.1 rest =
      (takeNumber? l.2 rest).map fun r => (shape r.1, r.2))
    (h : ∀ fuel rest lead, 2 * bytes.length + 1 ≤ fuel → ∀ after,
      messagePackShape? lead after = some (shape n, bytes ++ rest) →
        readMessagePackItem (fuel + 1) (lead :: after) = some (v, rest)) :
    Packs (head ++ bytes) v := by
  -- In one byte or in several, the head announces the same shape.
  have hfirst : ∃ lead tail, head = lead :: tail ∧ ∀ rest,
      messagePackShape? lead (tail ++ rest) = some (shape n, rest) := by
    rcases messagePackHead_cases hhead with ⟨hn, rfl⟩ | ⟨l, hl, hn, rfl⟩
    · exact ⟨_, [], rfl, fun rest => hsmall hn rest⟩
    · refine ⟨_, _, rfl, fun rest => ?_⟩
      rw [hlarge l hl, takeNumber?_bigEndian hn, Option.map_some]
  rcases hfirst with ⟨lead, tail, rfl, hshape⟩
  refine ⟨Nat.succ_pos _, fun fuel rest hfuel => ?_⟩
  rw [List.cons_append, List.length_cons, List.length_append] at hfuel
  cases fuel with
  | zero => omega
  | succ fuel =>
      rw [List.cons_append, List.cons_append, List.append_assoc]
      exact h fuel rest lead (by omega) _ (hshape _)

/-- A list is read if its inside is. -/
theorem PacksItems.list {bytes head : Bytes} {vs : List Value} (h : PacksItems bytes vs)
    (hhead : messagePackHead? 0x90 16 listLeads vs.length = some head) :
    Packs (head ++ bytes) (.list vs) := by
  -- A short list has its length in the lead, a longer one behind it; the items are read alike.
  refine packs_collection .list hhead (fun hn rest => ?_) ?_ ?_
  · have hnat := toNat_lead 0x90 vs.length (by omega)
    have hlead : 0x90 ≤ UInt8.ofNat (0x90 + vs.length) ∧ UInt8.ofNat (0x90 + vs.length) < 0xA0 :=
      lead_bounds 0x90 _ 0xA0 (by omega) (by decide)
    unfold messagePackShape?
    rw [if_neg (by grind), if_pos hlead, hnat, Nat.add_sub_cancel_left]
  · intro l hl rest
    unfold listLeads at hl
    simp only [List.mem_cons, List.not_mem_nil, or_false] at hl
    rcases hl with rfl | rfl
    · rfl
    · rfl
  · intro fuel rest lead hfuel after hshape
    rw [readMessagePackItem, hshape]
    change (readMessagePackItems fuel vs.length [] (bytes ++ rest)).bind _ = _
    rw [h fuel [] rest hfuel]
    rfl

/-- Bytes that are read as the members of a mapping, after others of other names and
    whatever follows. -/
def PacksMembers (bytes : Bytes) (ms : List (String × Value)) : Prop :=
  ∀ fuel (done : List (String × Value)) rest, 2 * bytes.length + 1 ≤ fuel →
    (done.map Prod.fst ++ ms.map Prod.fst).Nodup →
      readMessagePackEntries fuel ms.length (membersValue done) (bytes ++ rest) =
        some (membersValue (done ++ ms), rest)

theorem PacksMembers.nil : PacksMembers [] [] := by
  intro fuel done rest _ _
  rw [List.append_nil, List.length_nil, readMessagePackEntries]
  rfl

theorem PacksMembers.cons {first second bytes : Bytes} {name : String} {v : Value}
    {ms : List (String × Value)} (hkey : Packs first (.text name)) (hvalue : Packs second v)
    (h : PacksMembers bytes ms) : PacksMembers (first ++ second ++ bytes) ((name, v) :: ms) := by
  intro fuel done rest hfuel hnames
  have hpos := hkey.length_pos
  rw [List.length_append, List.length_append] at hfuel
  cases fuel with
  | zero => omega
  | succ fuel =>
      rw [List.map_cons] at hnames
      -- No name comes twice, so every member goes to the end.
      have hnew : name ∉ done.map Prod.fst := fun hmem =>
        (List.nodup_append.mp hnames).2.2 _ hmem _ List.mem_cons_self rfl
      have hrest := h fuel (done ++ [(name, v)]) rest (by omega)
      rw [List.map_append, List.append_assoc, List.append_assoc] at hrest
      rw [List.append_assoc, List.append_assoc, List.length_cons, readMessagePackEntries,
        hkey.reads fuel _ (by omega)]
      change (readMessagePackItem fuel (second ++ (bytes ++ rest))).bind _ = _
      rw [hvalue.reads fuel _ (by omega)]
      change readMessagePackEntries fuel ms.length (setEntry (membersValue done) (.text name) v)
        (bytes ++ rest) = _
      rw [setEntry_membersValue v hnew]
      exact hrest hnames

/-- A mapping is read if its inside is. -/
theorem PacksMembers.dict {bytes head : Bytes} {ms : List (String × Value)}
    (h : PacksMembers bytes ms) (hnames : (ms.map Prod.fst).Nodup)
    (hhead : messagePackHead? 0x80 16 mapLeads ms.length = some head) :
    Packs (head ++ bytes) (.dict (membersValue ms)) := by
  -- As for lists: a short lead, a longer one, and what follows either.
  refine packs_collection .map hhead (fun hn rest => ?_) ?_ ?_
  · have hnat := toNat_lead 0x80 ms.length (by omega)
    have hlead : 0x80 ≤ UInt8.ofNat (0x80 + ms.length) ∧ UInt8.ofNat (0x80 + ms.length) < 0x90 :=
      lead_bounds 0x80 _ 0x90 (by omega) (by decide)
    unfold messagePackShape?
    rw [if_pos hlead, hnat, Nat.add_sub_cancel_left]
  · intro l hl rest
    unfold mapLeads at hl
    simp only [List.mem_cons, List.not_mem_nil, or_false] at hl
    rcases hl with rfl | rfl
    · rfl
    · rfl
  · intro fuel rest lead hfuel after hshape
    rw [readMessagePackItem, hshape]
    change (readMessagePackEntries fuel ms.length (membersValue []) (bytes ++ rest)).bind _ = _
    rw [h fuel [] rest hfuel hnames, List.nil_append]
    rfl

end Docket
