import Docket.Proofs.Recording.Building
import Docket.Proofs.Recording.Journal

/-!
# Sound sessions

Every block is held at one place at most, by a block made before it. Both are
kept because what a statement stores was made by the statement itself: values
are written out before they are classified, so the only blocks in what they are
resolved to are those of bodies that were run meanwhile. Such blocks are newer
than the block that is assigned to, and nothing holds them yet.

`Safe` says this of work in general: it keeps a session sound, it brings no block
that existed before to another place, and it comes to something new. Statements
and bodies are safe at every depth, whatever bodies are run within them, on
whichever blocks, and whether or not they fail.

## Main definitions

* `Session.Sound`: A session in which every block has one owner at most.
* `Keeps`: No block that existed before has moved.
* `NewIn`, `Fresh`: Blocks and values made since.
* `Safe`: Work that keeps a session sound.

## Theorems

* `Session.Sound.assign`: Storing something new keeps a session sound.
* `safe_resolve`: What a tree stands for is new.
-/

namespace Docket

/-- A session whose fields contain recorded values under distinct names, and in
    which every block is held at one place at most, by a block made before it. -/
structure Session.Sound (L : Value → Prop) (s : Session) : Prop where
  filled : s.Filled L
  names : ∀ i, (s.fields i).names.Nodup
  ordered : s.Ordered
  once : ∀ i, (s.fields i).held.Nodup
  owner : ∀ i k j, s.Holds i j → s.Holds k j → i = k
  kept : ∀ k ∈ s.kept, k.2 < s.blocks.size

/-- Blocks have been made, and no block that existed before has moved. -/
structure Keeps (s s' : Session) : Prop where
  size : s.blocks.size ≤ s'.blocks.size
  holds : ∀ i j, j < s.blocks.size → s'.Holds i j → s.Holds i j

/-- Distinct blocks made since there were `n`, and held by no block. -/
structure NewIn (n : Nat) (ids : List Nat) (s : Session) : Prop where
  nodup : ids.Nodup
  new : ∀ j ∈ ids, n ≤ j ∧ j < s.blocks.size
  free : ∀ j ∈ ids, ∀ i, ¬ s.Holds i j

/-- A recorded value whose blocks have been made since there were `n`. -/
structure Fresh (L : Value → Prop) (n : Nat) (v : Value) (s : Session) : Prop where
  recorded : v.Recorded L
  newIn : NewIn n v.held s

theorem Keeps.refl (s : Session) : Keeps s s := ⟨Nat.le_refl _, fun _ _ _ h => h⟩

theorem Keeps.trans {s₁ s₂ s₃ : Session} (h₁ : Keeps s₁ s₂) (h₂ : Keeps s₂ s₃) : Keeps s₁ s₃ where
  size := Nat.le_trans h₁.size h₂.size
  holds i j hj h := h₁.holds i j hj (h₂.holds i j (Nat.lt_of_lt_of_le hj h₁.size) h)

theorem Draws.fields {s s' : Session} (h : Draws s s') (i : Nat) : s'.fields i = s.fields i := by
  unfold Session.fields
  rw [h.blocks]

theorem Draws.keeps {s s' : Session} (h : Draws s s') : Keeps s s' := by
  refine ⟨Nat.le_of_eq (congrArg Array.size h.blocks).symm, fun i j _ hij => ?_⟩
  unfold Session.Holds at hij
  rw [h.fields] at hij
  exact hij

namespace NewIn

theorem nil (n : Nat) (s : Session) : NewIn n [] s :=
  ⟨List.nodup_nil, fun _ h => absurd h List.not_mem_nil, fun _ h => absurd h List.not_mem_nil⟩

theorem of_le {n k : Nat} {ids : List Nat} {s : Session} (h : NewIn n ids s) (hk : k ≤ n) :
    NewIn k ids s :=
  ⟨h.nodup, fun j hj => ⟨Nat.le_trans hk (h.new j hj).1, (h.new j hj).2⟩, h.free⟩

theorem keeps {n : Nat} {ids : List Nat} {s s' : Session} (h : NewIn n ids s) (hs : Keeps s s') :
    NewIn n ids s' where
  nodup := h.nodup
  new j hj := ⟨(h.new j hj).1, Nat.lt_of_lt_of_le (h.new j hj).2 hs.size⟩
  free j hj i hij := h.free j hj i (hs.holds i j (h.new j hj).2 hij)

theorem sublist {n : Nat} {ids ids' : List Nat} {s : Session} (h : NewIn n ids s)
    (hnodup : ids'.Nodup) (hmem : ∀ j ∈ ids', j ∈ ids) : NewIn n ids' s :=
  ⟨hnodup, fun j hj => h.new j (hmem j hj), fun j hj => h.free j (hmem j hj)⟩

/-- Blocks made earlier and blocks made later are distinct. -/
theorem append {n k : Nat} {ids ids' : List Nat} {s : Session} (h : NewIn n ids s)
    (h' : NewIn k ids' s) (hbound : ∀ j ∈ ids, j < k) (hk : n ≤ k) : NewIn n (ids ++ ids') s where
  nodup := by
    rw [List.nodup_append]
    refine ⟨h.nodup, h'.nodup, fun a ha b hb hab => ?_⟩
    have hlt := hbound a ha
    have hge := (h'.new b hb).1
    omega
  new j hj := by
    rcases List.mem_append.mp hj with hj | hj
    · exact h.new j hj
    · exact (h'.of_le hk).new j hj
  free j hj := by
    rcases List.mem_append.mp hj with hj | hj
    · exact h.free j hj
    · exact h'.free j hj

end NewIn

namespace Fields

theorem mem_held_set {fs : Fields} {name : Name} {v : Value} {j : Nat}
    (h : j ∈ (fs.set name v).held) : j ∈ fs.held ∨ j ∈ v.held := by
  rcases mem_held.mp h with ⟨f, hf, hj⟩
  rcases mem_set hf with hf | hf
  · exact Or.inl (mem_held.mpr ⟨f, hf, hj⟩)
  · exact Or.inr (hf ▸ hj)

/-- Assigning a value brings in its blocks and at most drops others. -/
theorem nodup_held_set {fs : Fields} {v : Value} (name : Name) (hfs : fs.held.Nodup)
    (hv : v.held.Nodup) (hdisjoint : ∀ j ∈ fs.held, j ∉ v.held) :
    (fs.set name v).held.Nodup := by
  have hcons : ∀ (f : Name × Value) (l : Fields), held (f :: l) = f.2.held ++ held l :=
    fun _ _ => rfl
  induction fs with
  | nil =>
      rw [set, hcons, List.nodup_append]
      exact ⟨hv, List.nodup_nil, fun _ _ _ h => absurd h List.not_mem_nil⟩
  | cons f rest ih =>
      rw [hcons, List.nodup_append] at hfs
      rcases hfs with ⟨hf, hrest, hfrest⟩
      rw [hcons] at hdisjoint
      have hdisjoint' : ∀ j ∈ held rest, j ∉ v.held :=
        fun j hj => hdisjoint j (List.mem_append_right _ hj)
      rw [set]
      -- Either the field is replaced, and what it held is dropped, or the value goes in further
      -- on.
      by_cases hsame : f.1.same name = true
      · rw [if_pos hsame, hcons, List.nodup_append]
        refine ⟨hv, hrest, fun a ha b hb hab => ?_⟩
        exact hdisjoint' b hb (hab ▸ ha)
      · rw [if_neg hsame, hcons, List.nodup_append]
        refine ⟨hf, ih hrest hdisjoint', fun a ha b hb hab => ?_⟩
        rcases mem_held_set hb with hb | hb
        · exact hfrest a ha b hb hab
        · exact hdisjoint a (List.mem_append_left _ ha) (hab ▸ hb)

theorem map_set (fs : Fields) (name : Name) (v : Value) (f : Value → Value) :
    ((fs.set name v).map fun p => (p.1, f p.2)) =
      set (fs.map fun p => (p.1, f p.2)) name (f v) := by
  induction fs with
  | nil => rfl
  | cons p rest ih =>
      rw [List.map_cons, set, set]
      by_cases hsame : p.1.same name = true
      · rw [if_pos hsame, if_pos hsame, List.map_cons]
      · rw [if_neg hsame, if_neg hsame, List.map_cons, ih]

end Fields

namespace Session

/-- What holds what after an assignment. -/
theorem holds_assigned {s : Session} {id : Nat} {name : Name} {v : Value} {i j : Nat}
    (hid : id < s.blocks.size) (h : (s.assigned id name v).Holds i j) :
    s.Holds i j ∨ i = id ∧ j ∈ v.held := by
  unfold Holds at h
  rw [fields_assigned s name v i hid] at h
  by_cases hi : i = id
  · rw [if_pos hi] at h
    rcases Fields.mem_held_set h with h | h
    · rw [← hi] at h
      exact Or.inl h
    · exact Or.inr ⟨hi, h⟩
  · rw [if_neg hi] at h
    exact Or.inl h

theorem OrderedFrom.assigned {s : Session} {n id : Nat} (hs : s.OrderedFrom n) {v : Value}
    (name : Name) (hid : id < s.blocks.size) (hv : ∀ j ∈ v.held, id < j ∧ j < s.blocks.size) :
    (s.assigned id name v).OrderedFrom n := by
  intro i j hi hij
  rw [size_assigned]
  rcases holds_assigned hid hij with hij | ⟨rfl, hj⟩
  · exact hs i j hi hij
  · exact hv j hj

/-- What is seen of a block when a field of it has been stored. -/
theorem snapshotFields_assigned {s : Session} {id : Nat} (hs : s.OrderedFrom id) {v : Value}
    (name : Name) (hid : id < s.blocks.size) (hv : ∀ j ∈ v.held, id < j ∧ j < s.blocks.size) :
    (s.assigned id name v).snapshotFields id = (s.snapshotFields id).set name (s.snapshot v) := by
  -- What hangs below the block is the same as before, being made later.
  have hbelow : ∀ w : Value, (∀ j ∈ w.held, id < j ∧ j < s.blocks.size) →
      (s.assigned id name v).snapshot w = s.snapshot w := by
    intro w hw
    have hlater : ∀ {t : Session}, t.OrderedFrom id → t.OrderedFrom (id + 1) :=
      fun ht i j hi => ht i j (by omega)
    refine snapshot_eq_of_fields (hlater hs) (hlater (hs.assigned name hid hv)) ?_ hw
    exact fun i hi _ => fields_assigned_ne s name v (by omega)
  unfold snapshotFields
  rw [fields_assigned s name v id hid, if_pos rfl, Fields.map_set, hbelow v hv]
  refine congrArg (Fields.set · name (s.snapshot v)) ?_
  refine List.map_congr_left fun p hp => congrArg (Prod.mk p.1) (hbelow p.2 fun j hj => ?_)
  exact hs id j (Nat.le_refl id) (Fields.mem_held.mpr ⟨p, hp, hj⟩)

variable {L : Value → Prop}

/-- Storing something new in a block that was there before keeps a session
    sound. -/
theorem Sound.assign {s₀ s : Session} (hs : s.Sound L) {id : Nat} {v : Value} (name : Name)
    (hkeeps : Keeps s₀ s) (hv : Fresh L s₀.blocks.size v s) (hid : id < s₀.blocks.size) :
    (s.assigned id name v).Sound L ∧ Keeps s₀ (s.assigned id name v) := by
  have hid' : id < s.blocks.size := Nat.lt_of_lt_of_le hid hkeeps.size
  refine ⟨?_, ?_⟩
  · constructor
    case filled =>
      intro i f hf
      rw [fields_assigned s name v i hid'] at hf
      by_cases hi : i = id
      · rw [if_pos hi] at hf
        rcases Fields.mem_set hf with hf | hf
        · exact hs.filled id f hf
        · exact hf ▸ hv.recorded
      · rw [if_neg hi] at hf
        exact hs.filled i f hf
    case names =>
      intro i
      rw [fields_assigned s name v i hid']
      by_cases hi : i = id
      · rw [if_pos hi]
        exact Fields.nodup_set name v (hs.names id)
      · rw [if_neg hi]
        exact hs.names i
    case ordered =>
      intro i j hij
      rw [size_assigned]
      rcases holds_assigned hid' hij with hij | ⟨rfl, hj⟩
      · exact hs.ordered i j hij
      · have hnew := hv.newIn.new j hj
        omega
    case once =>
      intro i
      rw [fields_assigned s name v i hid']
      by_cases hi : i = id
      · rw [if_pos hi]
        refine Fields.nodup_held_set name (hs.once id) hv.newIn.nodup fun j hj hjv => ?_
        exact hv.newIn.free j hjv id hj
      · rw [if_neg hi]
        exact hs.once i
    case owner =>
      intro i k j hi hk
      -- What is new had no owner before, and now it has this one.
      rcases holds_assigned hid' hi with hi | ⟨hi, hiv⟩
      · rcases holds_assigned hid' hk with hk | ⟨-, hkv⟩
        · exact hs.owner i k j hi hk
        · exact absurd hi (hv.newIn.free j hkv i)
      · rcases holds_assigned hid' hk with hk | ⟨hk, -⟩
        · exact absurd hk (hv.newIn.free j hiv k)
        · rw [hi, hk]
    case kept =>
      intro k hk
      rw [size_assigned]
      exact hs.kept k hk
  · refine ⟨?_, fun i j hj hij => ?_⟩
    · rw [size_assigned]
      exact hkeeps.size
    · rcases holds_assigned hid' hij with hij | ⟨-, hjv⟩
      · exact hkeeps.holds i j hj hij
      · have hnew := (hv.newIn.new j hjv).1
        omega

theorem holds_opened (s : Session) {i j : Nat} : s.opened.Holds i j ↔ s.Holds i j := by
  unfold Holds
  rw [fields_opened]

theorem keeps_opened (s : Session) : Keeps s s.opened := by
  refine ⟨?_, fun i j _ h => s.holds_opened.mp h⟩
  rw [size_opened]
  exact Nat.le_succ _

theorem Sound.opened {s : Session} (hs : s.Sound L) : s.opened.Sound L where
  filled i := by
    rw [fields_opened]
    exact hs.filled i
  names i := by
    rw [fields_opened]
    exact hs.names i
  ordered i j hij := by
    have hbounds := hs.ordered i j (s.holds_opened.mp hij)
    rw [size_opened]
    omega
  once i := by
    rw [fields_opened]
    exact hs.once i
  owner i k j hi hk := hs.owner i k j (s.holds_opened.mp hi) (s.holds_opened.mp hk)
  kept k hk := by
    rw [size_opened]
    exact Nat.lt_succ_of_lt (hs.kept k hk)

theorem Sound.draws {s s' : Session} (hs : s.Sound L) (h : Draws s s') : s'.Sound L where
  filled := h.filled hs.filled
  names i := by
    rw [h.fields]
    exact hs.names i
  ordered i j hij := by
    unfold Holds at hij
    rw [h.fields] at hij
    rw [h.blocks]
    exact hs.ordered i j hij
  once i := by
    rw [h.fields]
    exact hs.once i
  owner i k j hi hk := by
    unfold Holds at hi hk
    rw [h.fields] at hi hk
    exact hs.owner i k j hi hk
  kept k hk := by
    rw [h.kept] at hk
    rw [h.blocks]
    exact hs.kept k hk

end Session

/-- Work that keeps a session sound, if `P` and if there are `k` blocks already,
    and what it comes to. Whatever is known, it loses nothing that was recorded. -/
def Safe (L : Value → Prop) (k : Nat) (P : Prop) {α : Type} (p : Run α)
    (Q : Nat → α → Session → Prop) : Prop :=
  ∀ s r s', Yields p s r s' → s.Onward s' ∧
    (P → s.Sound L → k ≤ s.blocks.size → (∀ v ∈ s'.leaves, L v) →
      s'.Sound L ∧ Keeps s s' ∧ ∀ a, r = .ok a → Q s.blocks.size a s')

/-- Safe work of which nothing more has to be known. -/
abbrev SafeUnit (L : Value → Prop) (k : Nat) (P : Prop) (p : Run Unit) : Prop :=
  Safe L k P p fun _ _ _ => True

/-- Bodies are run safely on any blocks, and come to something new. -/
def SafeRunner (L : Value → Prop) (run : BodyRunner) : Prop :=
  ∀ k stack b, Safe L k (∀ id ∈ stack, id < k) (run stack b) fun n v s => Fresh L n v s

namespace Safe

variable {L : Value → Prop} {k : Nat} {P : Prop} {α β : Type}

theorem of_builds {p : Run α} {Q : α → Prop} (h : Builds L p Q) :
    Safe L k P p fun _ a _ => Q a := by
  intro s r s' hp
  rcases h s r s' hp with ⟨hdraws, hQ⟩
  exact ⟨.draws hdraws, fun _ hs _ hleaves =>
    ⟨hs.draws hdraws, hdraws.keeps, hQ hs.filled hleaves⟩⟩

theorem weaken {W : Prop} {p : Run α} {Q : Nat → α → Session → Prop} (h : Safe L k P p Q)
    (hP : W → P) : Safe L k W p Q := by
  intro s r s' hp
  rcases h s r s' hp with ⟨honward, hsafe⟩
  exact ⟨honward, fun hW => hsafe (hP hW)⟩

theorem mono {p : Run α} {Q R : Nat → α → Session → Prop} (h : Safe L k P p Q)
    (hQ : ∀ n a s, Q n a s → R n a s) : Safe L k P p R := by
  intro s r s' hp
  rcases h s r s' hp with ⟨honward, hsafe⟩
  refine ⟨honward, fun hP hs hk hleaves => ?_⟩
  rcases hsafe hP hs hk hleaves with ⟨hs', hkeeps, hq⟩
  exact ⟨hs', hkeeps, fun a ha => hQ _ a s' (hq a ha)⟩

theorem throw {e : Failure} {Q : Nat → α → Session → Prop} :
    Safe L k P (MonadExcept.throw e : Run α) Q := by
  intro s r s' hp
  rcases yields_throw.mp hp with ⟨rfl, rfl⟩
  exact ⟨.refl _, fun _ hs _ _ => ⟨hs, Keeps.refl _,
    fun a ha => absurd ha error_ne_ok⟩⟩

/-- After a failure nothing is done. -/
theorem throw_bind {e : Failure} {f : α → Run β} {Q : Nat → β → Session → Prop} :
    Safe L k P ((MonadExcept.throw e : Run α) >>= f) Q := by
  intro s r s' h
  rw [yields_bind_error (yields_throw.mpr ⟨rfl, rfl⟩)] at h
  exact throw s r s' (yields_throw.mpr h)

/-- Values are built first, and what is done with them rests on how they are
    made. -/
theorem builds_bind {p : Run α} {f : α → Run β} {Q : α → Prop} {R : Nat → β → Session → Prop}
    (hp : Builds L p Q) (hf : ∀ a, Safe L k (P ∧ Q a) (f a) R) : Safe L k P (p >>= f) R := by
  intro s r s' h
  rcases yields_bind.mp h with ⟨a, m, h₁, h₂⟩ | ⟨e, h₁, rfl⟩
  · rcases hp s _ m h₁ with ⟨hdraws, hQ⟩
    rcases hf a m r s' h₂ with ⟨honward, hsafe⟩
    refine ⟨(Session.Onward.draws hdraws).trans honward, fun hP hs hk hleaves => ?_⟩
    have hm : ∀ v ∈ m.leaves, L v := fun v hv => hleaves v (honward.leaves v hv)
    -- Building draws from iterators and makes no block, so that the bound counts from the same
    -- size.
    have hsize : m.blocks.size = s.blocks.size := congrArg Array.size hdraws.blocks
    rcases hsafe ⟨hP, hQ hs.filled hm a rfl⟩ (hs.draws hdraws) (by omega) hleaves with
      ⟨hs', hkeeps, hR⟩
    rw [hsize] at hR
    exact ⟨hs', hdraws.keeps.trans hkeeps, hR⟩
  · rcases hp s _ s' h₁ with ⟨hdraws, -⟩
    exact ⟨.draws hdraws, fun _ hs _ _ => ⟨hs.draws hdraws, hdraws.keeps,
      fun a ha => absurd ha error_ne_ok⟩⟩

theorem pure {a : α} : Safe L k P (Pure.pure a : Run α) fun _ b _ => b = a :=
  of_builds (Builds.pure rfl)

/-- Safe work in two parts. -/
theorem bind {p : Run α} {f : α → Run β} {Q : Nat → α → Session → Prop}
    {R : α → Nat → β → Session → Prop} {S : Nat → β → Session → Prop} (hp : Safe L k P p Q)
    (hf : ∀ a, Safe L k P (f a) (R a))
    (hS : ∀ n a m b s', Q n a m → n ≤ m.blocks.size → Keeps m s' → R a m.blocks.size b s' →
      S n b s') : Safe L k P (p >>= f) S := by
  intro s r s' h
  rcases yields_bind.mp h with ⟨a, m, h₁, h₂⟩ | ⟨e, h₁, rfl⟩
  · rcases hp s _ m h₁ with ⟨honward₁, hsafe₁⟩
    rcases hf a m r s' h₂ with ⟨honward₂, hsafe₂⟩
    refine ⟨honward₁.trans honward₂, fun hP hs hk hleaves => ?_⟩
    have hm : ∀ v ∈ m.leaves, L v := fun v hv => hleaves v (honward₂.leaves v hv)
    -- What the first part promises holds where it ends; what the second promises carries the
    -- rest.
    rcases hsafe₁ hP hs hk hm with ⟨hms, hkeeps₁, hQ⟩
    rcases hsafe₂ hP hms (Nat.le_trans hk hkeeps₁.size) hleaves with ⟨hs', hkeeps₂, hR⟩
    exact ⟨hs', hkeeps₁.trans hkeeps₂, fun b hb =>
      hS _ a m b s' (hQ a rfl) hkeeps₁.size hkeeps₂ (hR b hb)⟩
  · rcases hp s _ s' h₁ with ⟨honward, hsafe⟩
    refine ⟨honward, fun hP hs hk hleaves => ?_⟩
    rcases hsafe hP hs hk hleaves with ⟨hs', hkeeps, -⟩
    exact ⟨hs', hkeeps, fun a ha => absurd ha error_ne_ok⟩

theorem map {p : Run α} {Q : Nat → α → Session → Prop} (hp : Safe L k P p Q) (f : α → β) :
    Safe L k P (do let a ← p; Pure.pure (f a)) fun n b s => ∃ a, b = f a ∧ Q n a s := by
  intro s r s' h
  rcases yields_bind.mp h with ⟨a, m, h₁, h₂⟩ | ⟨e, h₁, rfl⟩
  · rcases yields_pure.mp h₂ with ⟨rfl, rfl⟩
    rcases hp s _ s' h₁ with ⟨honward, hsafe⟩
    refine ⟨honward, fun hP hs hk hleaves => ?_⟩
    rcases hsafe hP hs hk hleaves with ⟨hs', hkeeps, hQ⟩
    refine ⟨hs', hkeeps, fun b hb => ⟨a, ?_, hQ a rfl⟩⟩
    rw [Except.ok.injEq] at hb
    exact hb.symm
  · rcases hp s _ s' h₁ with ⟨honward, hsafe⟩
    refine ⟨honward, fun hP hs hk hleaves => ?_⟩
    rcases hsafe hP hs hk hleaves with ⟨hs', hkeeps, -⟩
    exact ⟨hs', hkeeps, fun a ha => absurd ha error_ne_ok⟩

end Safe

section

variable {L : Value → Prop} {k : Nat} {P : Prop}

/-- Fields of distinct names whose values are recorded. -/
def Fields.Recorded (L : Value → Prop) (fs : Fields) : Prop :=
  fs.names.Nodup ∧ ∀ f ∈ fs, f.2.Recorded L

/-- A mapping stands for fields that hold something new, if its entries do. -/
theorem safe_resolve_mapping {run : Body → Run Value} {entries : List (Name × Node)}
    (h : Safe L k P (resolveEntries run [] entries) fun m fs s => ∀ n ≤ m, cleanEntries L entries →
      Fields.Recorded L [] → NewIn n (Fields.held []) s → (∀ j ∈ Fields.held [], j < m) →
        fs.Recorded L ∧ NewIn n fs.held s) :
    Safe L k P ((Node.mapping entries).resolve run) fun m v s => cleanEntries L entries →
      ∃ fs : Fields, v = fs.toValue ∧ fs.Recorded L ∧ NewIn m fs.held s := by
  rw [Node.resolve]
  refine (h.map Fields.toValue).mono ?_
  rintro m w s ⟨fs, rfl, hfs⟩ hclean
  have hempty : Fields.Recorded L [] :=
    ⟨List.nodup_nil, fun f hf => absurd hf List.not_mem_nil⟩
  exact ⟨fs, rfl, hfs m (Nat.le_refl m) hclean hempty (NewIn.nil m s)
    fun j hj => absurd hj List.not_mem_nil⟩

mutual

/-- What a tree stands for is new if it is clean. -/
theorem safe_resolve {run : Body → Run Value} (hL : LeafRule L)
    (hrun : ∀ b, Safe L k P (run b) fun n v s => Fresh L n v s) : (n : Node) →
    Safe L k P (n.resolve run) fun m v s => n.Clean L → Fresh L m v s
  | .scalar v kind => by
    rw [Node.resolve]
    refine Safe.pure.mono ?_
    rintro m w s rfl hclean
    refine ⟨Value.Recorded.leaf hclean, ?_⟩
    rw [hL.free _ hclean]
    exact NewIn.nil m s
  | .seq items => by
    rw [Node.resolve]
    refine ((safe_resolveItems hL hrun items).map Value.list).mono ?_
    rintro m w s ⟨vs, rfl, hvs⟩ hclean
    exact ⟨Value.Recorded.list (hvs hclean).1, (hvs hclean).2⟩
  | .mapping entries => by
    refine (safe_resolve_mapping (safe_resolveEntries hL hrun entries [])).mono ?_
    intro m w s h hclean
    rcases h hclean with ⟨fs, rfl, hrecorded, hnew⟩
    refine ⟨Value.Recorded.fields hrecorded.1 hrecorded.2, ?_⟩
    rw [Fields.held_toValue]
    exact hnew
  | .nested b => by
    rw [Node.resolve]
    exact (hrun b).mono fun m v s h _ => h
  | .raw v => by
    rw [Node.resolve]
    exact Safe.throw

theorem safe_resolveItems {run : Body → Run Value} (hL : LeafRule L)
    (hrun : ∀ b, Safe L k P (run b) fun n v s => Fresh L n v s) : (items : List Node) →
    Safe L k P (resolveItems run items) fun m vs s => cleanNodes L items →
      (∀ v ∈ vs, v.Recorded L) ∧ NewIn m (heldInItems vs) s
  | [] => by
    rw [resolveItems]
    refine Safe.pure.mono ?_
    rintro m w s rfl -
    exact ⟨fun v hv => absurd hv List.not_mem_nil, NewIn.nil m s⟩
  | n :: rest => by
    rw [resolveItems]
    refine (safe_resolve hL hrun n).bind
      (fun v => (safe_resolveItems hL hrun rest).map (List.cons v)) ?_
    rintro m v s ws s' hv hm hkeeps ⟨vs, rfl, hvs⟩ hclean
    rcases hvs hclean.2 with ⟨hrecorded, hnew⟩
    have hfresh := hv hclean.1
    refine ⟨List.forall_mem_cons.mpr ⟨hfresh.recorded, hrecorded⟩, ?_⟩
    -- The head was made first, so its blocks come before those of the rest.
    exact (hfresh.newIn.keeps hkeeps).append hnew (fun j hj => (hfresh.newIn.new j hj).2) hm

theorem safe_resolveEntries {run : Body → Run Value} (hL : LeafRule L)
    (hrun : ∀ b, Safe L k P (run b) fun n v s => Fresh L n v s) :
    (entries : List (Name × Node)) → (done : Fields) →
    Safe L k P (resolveEntries run done entries) fun m fs s => ∀ n ≤ m, cleanEntries L entries →
      done.Recorded L → NewIn n done.held s → (∀ j ∈ done.held, j < m) →
        fs.Recorded L ∧ NewIn n fs.held s
  | [], done => by
    rw [resolveEntries]
    refine Safe.pure.mono ?_
    rintro m w s rfl n hn - hdone hnew -
    exact ⟨hdone, hnew⟩
  | (name, n) :: rest, done => by
    rw [resolveEntries]
    refine (safe_resolve hL hrun n).bind
      (fun v => safe_resolveEntries hL hrun rest (done.set name v)) ?_
    intro m v s fs s' hv hm hkeeps hfs k hk hclean hdone hnew hbound
    have hfresh := hv hclean.1
    -- The fields done so far and the new value hold distinct blocks.
    have hboth := hnew.append (hfresh.newIn.keeps hkeeps) hbound hk
    have hmem : ∀ j ∈ (done.set name v).held, j ∈ done.held ++ v.held :=
      fun j hj => List.mem_append.mpr (Fields.mem_held_set hj)
    have hnodup : (done.set name v).held.Nodup := by
      refine Fields.nodup_held_set name hnew.nodup hfresh.newIn.nodup fun j hj hjv => ?_
      have hlt := hbound j hj
      have hge := (hfresh.newIn.new j hjv).1
      omega
    refine hfs k (Nat.le_trans hk hm) hclean.2 ⟨Fields.nodup_set name v hdone.1, ?_⟩
      (hboth.sublist hnodup hmem) ?_
    · intro f hf
      rcases Fields.mem_set hf with hf | hf
      · exact hdone.2 f hf
      · exact hf ▸ hfresh.recorded
    · intro j hj
      rcases List.mem_append.mp (hmem j hj) with hj | hj
      · exact Nat.lt_of_lt_of_le (hbound j hj) hm
      · exact (hfresh.newIn.new j hj).2

end

end

end Docket
