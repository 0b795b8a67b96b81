import Docket.Proofs.Recording.Evaluation

/-!
# Folding in order

Entries are folded by their names: a name that is present keeps its place and takes the
last value. What goes with the names plays no part in this, so it may be changed before or
after (`orderedFold_map`), and what holds of all values, or of any two of them, holds of
those that are left.

## Theorems

* `orderedFold_map`: What goes with names may be changed before or after.
* `orderedFold_of_nodup`: Entries of distinct names stay as they are.
* `orderedFold_forall`, `pairwise_orderedFold`: What is known of values is known of those
  that are left.
* `nodup_names_orderedFold`: Folded entries have distinct names.
-/

namespace Docket

section

variable {β γ : Type}

theorem placed_map (f : β → γ) (es : List (Name × β)) (name : Name) (b : β) :
    placed (es.map fun e => (e.1, f e.2)) name (f b) =
      (placed es name b).map fun e => (e.1, f e.2) := by
  induction es with
  | nil => rfl
  | cons e rest ih =>
      rw [List.map_cons, placed, placed, ih]
      split
      · rfl
      · rfl

/-- What goes with names may be changed before or after folding. -/
theorem orderedFold_map (f : β → γ) (es : List (Name × β)) :
    orderedFold (es.map fun e => (e.1, f e.2)) =
      (orderedFold es).map fun e => (e.1, f e.2) := by
  -- The induction needs to know this of whatever has been folded before.
  have hfold : ∀ done : List (Name × β),
      (es.map fun e => (e.1, f e.2)).foldl (fun done e => placed done e.1 e.2)
          (done.map fun e => (e.1, f e.2)) =
        (es.foldl (fun done e => placed done e.1 e.2) done).map fun e => (e.1, f e.2) := by
    induction es with
    | nil => exact fun _ => rfl
    | cons e rest ih =>
        intro done
        rw [List.map_cons, List.foldl_cons, List.foldl_cons, placed_map, ih]
  exact hfold []

theorem placed_of_new {es : List (Name × β)} {name : Name} (b : β)
    (h : ∀ e ∈ es, e.1.text ≠ name.text) : placed es name b = es ++ [(name, b)] := by
  induction es with
  | nil => rfl
  | cons e rest ih =>
      rw [List.forall_mem_cons] at h
      rw [placed, if_neg h.1, ih h.2]
      rfl

/-- Entries of distinct names stay as they are. -/
theorem orderedFold_of_nodup {es : List (Name × β)} (h : (es.map (·.1.text)).Nodup) :
    orderedFold es = es := by
  have hfold : ∀ done : List (Name × β), (∀ e ∈ es, ∀ f ∈ done, f.1.text ≠ e.1.text) →
      es.foldl (fun done e => placed done e.1 e.2) done = done ++ es := by
    induction es with
    | nil => exact fun done _ => (List.append_nil done).symm
    | cons e rest ih =>
        intro done hdone
        rw [List.map_cons, List.nodup_cons] at h
        rw [List.forall_mem_cons] at hdone
        rw [List.foldl_cons, placed_of_new e.2 hdone.1, ih h.2, List.append_assoc]
        · rfl
        · -- The names that are left differ from this one as well.
          intro g hg f hf
          rcases List.mem_append.mp hf with hf | hf
          · exact hdone.2 g hg f hf
          · rw [List.mem_singleton.mp hf]
            exact fun hsame => h.1 (hsame ▸ List.mem_map_of_mem hg)
  exact hfold [] fun _ _ _ hf => absurd hf List.not_mem_nil

theorem mem_placed {es : List (Name × β)} {name : Name} {b : β} {e : Name × β}
    (h : e ∈ placed es name b) : (∃ f ∈ es, f.2 = e.2) ∨ e.2 = b := by
  induction es with
  | nil => exact Or.inr (congrArg Prod.snd (List.mem_singleton.mp h))
  | cons g rest ih =>
      rw [placed] at h
      split at h
      · rcases List.mem_cons.mp h with heq | h
        · exact Or.inr (congrArg Prod.snd heq)
        · exact Or.inl ⟨e, List.mem_cons_of_mem g h, rfl⟩
      · rcases List.mem_cons.mp h with heq | h
        · exact Or.inl ⟨g, List.mem_cons_self, congrArg Prod.snd heq.symm⟩
        · rcases ih h with ⟨f, hf, heq⟩ | heq
          · exact Or.inl ⟨f, List.mem_cons_of_mem g hf, heq⟩
          · exact Or.inr heq

/-- Folding brings no two entries together that were not there before. -/
theorem pairwise_placed {R : β → β → Prop} (hR : ∀ a b, R a b → R b a) {es : List (Name × β)}
    (h : es.Pairwise fun e f => R e.2 f.2) (name : Name) {b : β} (hb : ∀ e ∈ es, R e.2 b) :
    (placed es name b).Pairwise fun e f => R e.2 f.2 := by
  induction es with
  | nil => exact List.pairwise_singleton _ _
  | cons e rest ih =>
      rw [List.pairwise_cons] at h
      rw [List.forall_mem_cons] at hb
      rw [placed]
      split
      -- The new value stands where the old one stood, before some and after others.
      · exact List.pairwise_cons.mpr ⟨fun f hf => hR _ _ (hb.2 f hf), h.2⟩
      · refine List.pairwise_cons.mpr ⟨fun f hf => ?_, ih h.2 hb.2⟩
        rcases mem_placed hf with ⟨g, hg, heq⟩ | heq
        · exact heq ▸ h.1 g hg
        · exact heq ▸ hb.1

theorem orderedFold_forall {es : List (Name × β)} {P : β → Prop} (h : ∀ e ∈ es, P e.2) :
    ∀ e ∈ orderedFold es, P e.2 := by
  have hfold : ∀ done : List (Name × β), (∀ e ∈ done, P e.2) →
      ∀ e ∈ es.foldl (fun done e => placed done e.1 e.2) done, P e.2 := by
    induction es with
    | nil => exact fun _ hdone => hdone
    | cons f rest ih =>
        rw [List.forall_mem_cons] at h
        refine fun done hdone => ih h.2 _ fun e he => ?_
        rcases mem_placed he with ⟨g, hg, heq⟩ | heq
        · exact heq ▸ hdone g hg
        · exact heq ▸ h.1
  exact hfold [] nofun

theorem pairwise_orderedFold {R : β → β → Prop} (hR : ∀ a b, R a b → R b a)
    {es : List (Name × β)} (h : es.Pairwise fun e f => R e.2 f.2) :
    (orderedFold es).Pairwise fun e f => R e.2 f.2 := by
  -- What is placed already must stand to all that are left as well.
  have hfold : ∀ done : List (Name × β), (done.Pairwise fun e f => R e.2 f.2) →
      (∀ e ∈ done, ∀ f ∈ es, R e.2 f.2) →
        (es.foldl (fun done e => placed done e.1 e.2) done).Pairwise fun e f => R e.2 f.2 := by
    induction es with
    | nil => exact fun _ hdone _ => hdone
    | cons f rest ih =>
        rw [List.pairwise_cons] at h
        intro done hdone hboth
        refine ih h.2 _ (pairwise_placed hR hdone f.1 fun e he =>
          hboth e he f List.mem_cons_self) fun e he g hg => ?_
        rcases mem_placed he with ⟨e', he', heq⟩ | heq
        · exact heq ▸ hboth e' he' g (List.mem_cons_of_mem f hg)
        · exact heq ▸ h.1 g hg
  exact hfold [] .nil nofun

theorem nodup_names_orderedFold (es : List (Name × β)) :
    ((orderedFold es).map (·.1.text)).Nodup := by
  -- What goes with the names does not matter, so it may be a value.
  have hnames := nodup_orderedFold (es.map fun e => (e.1, Value.scalar .null))
  rw [orderedFold_map fun _ => Value.scalar .null, Fields.names, List.map_map] at hnames
  exact hnames

end

end Docket
