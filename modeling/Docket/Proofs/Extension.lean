import Docket.Bytes

/-!
# Readers that look no further

A reader takes what it needs from the front of some bytes and leaves the rest. What
it has read does not depend on how much was left: with more bytes after them, the
same bytes are read as the same, and more is left. This is what keeps a payload from
being taken for a longer one that was cut off. The bytes that are missing would be
left over from the whole payload, of which nothing is left.

`Extends` says it of two readers, because the readers of nested data count their
steps, and longer bytes give them more of those.

## Main definitions

* `Extends`: A reader reads what another one does, with more bytes after it.

## Theorems

* `Extends.bind`, `Extends.map`: Readers that are put together.
* `extends_takeBytes`, `extends_takeNumber`: The readers that all others begin with.
-/

namespace Docket

/-- What `f` reads of some bytes, `g` reads of them with more bytes after them. -/
def Extends {α : Type} (f g : Bytes → Option (α × Bytes)) : Prop :=
  ∀ bytes x rest more, f bytes = some (x, rest) → g (bytes ++ more) = some (x, rest ++ more)

section

variable {α β : Type}

theorem extends_none (g : Bytes → Option (α × Bytes)) : Extends (fun _ => none) g :=
  fun _ _ _ _ h => absurd h nofun

theorem extends_pure (x : α) :
    Extends (fun bytes => some (x, bytes)) fun bytes => some (x, bytes) := by
  intro bytes y rest more h
  cases h
  rfl

/-- A value that is there, or not, without anything being read for it. -/
theorem extends_given {k k' : α → Bytes → Option (β × Bytes)} (o : Option α)
    (hk : ∀ x, Extends (k x) (k' x)) :
    Extends (fun bytes => o.bind fun x => k x bytes) fun bytes => o.bind fun x => k' x bytes := by
  cases o with
  | none => exact extends_none _
  | some x => exact hk x

/-- One reader after another. -/
theorem Extends.bind {f g : Bytes → Option (α × Bytes)} {k k' : α → Bytes → Option (β × Bytes)}
    (h : Extends f g) (hk : ∀ x, Extends (k x) (k' x)) :
    Extends (fun bytes => (f bytes).bind fun r => k r.1 r.2)
      fun bytes => (g bytes).bind fun r => k' r.1 r.2 := by
  intro bytes y rest more hread
  rcases Option.bind_eq_some_iff.mp hread with ⟨⟨x, left⟩, hx, hy⟩
  change (g (bytes ++ more)).bind _ = _
  rw [h bytes x left more hx]
  exact hk x left y rest more hy

/-- A reader and what is made of the value that it reads. -/
theorem Extends.map {f g : Bytes → Option (α × Bytes)} (h : Extends f g) (k : α → β) :
    Extends (fun bytes => (f bytes).map fun r => (k r.1, r.2))
      fun bytes => (g bytes).map fun r => (k r.1, r.2) := by
  intro bytes y rest more hread
  rcases Option.map_eq_some_iff.mp hread with ⟨⟨x, left⟩, hx, hy⟩
  cases hy
  change (g (bytes ++ more)).map _ = _
  rw [h bytes x left more hx]
  rfl

/-- A reader that goes on by the first byte. -/
theorem Extends.byte {k k' : UInt8 → Bytes → Option (α × Bytes)} (hk : ∀ b, Extends (k b) (k' b)) :
    Extends (fun bytes => match bytes with | [] => none | b :: rest => k b rest)
      fun bytes => match bytes with | [] => none | b :: rest => k' b rest := by
  intro bytes x rest more h
  cases bytes with
  | nil => exact absurd h nofun
  | cons b tail => exact hk b tail x rest more h

/-- Where nothing is left of all of the bytes, nothing is read of fewer. -/
theorem Extends.eq_none_of_cut {f g : Bytes → Option (α × Bytes)} (h : Extends f g)
    {front back : Bytes} {x : α} (hread : g (front ++ back) = some (x, [])) (hback : back ≠ []) :
    f front = none := by
  cases hfront : f front with
  | none => rfl
  | some r =>
      have hmore := h front r.1 r.2 back hfront
      rw [hread] at hmore
      have hrest : r.2 ++ back = [] := (Prod.mk.inj (Option.some.inj hmore)).2.symm
      exact absurd (List.append_eq_nil_iff.mp hrest).2 hback

end

theorem extends_takeBytes (count : Nat) : Extends (takeBytes? count) (takeBytes? count) := by
  intro bytes x rest more h
  unfold takeBytes? at h ⊢
  simp only [] at h ⊢
  by_cases hlength : (bytes.take count).length = count
  · rw [if_pos hlength] at h
    cases h
    -- As many bytes as asked for are there, so none of those that follow are taken.
    have hcount : count ≤ bytes.length := by
      rw [List.length_take] at hlength
      omega
    rw [List.take_append_of_le_length hcount, List.drop_append_of_le_length hcount,
      if_pos hlength]
  · rw [if_neg hlength] at h
    exact absurd h nofun

theorem extends_takeNumber (width : Nat) : Extends (takeNumber? width) (takeNumber? width) :=
  (extends_takeBytes width).map ofBigEndian

end Docket
