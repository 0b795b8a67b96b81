import Docket.Proofs.Yaml.Graph
import Docket.Yaml.Data
import Mathlib.Data.List.Perm.Subperm

/-!
# Making data of a graph

A node is looked at where it stands. A scalar is taken for what it stands for at once; a
collection is put off, being met for the first time, and a reference stands in its place
until all is put together. Then the collections that have been met are looked into, one
after the other, by which more may be met. That ends because there are no more
collections than nodes, and each is met once.

Of the references that are left each is replaced by what its collection holds, where more
references stand. Their numbers are higher, so that ends too.

## Main definitions

* `YamlGraph.seen`, `YamlGraph.content`: What a node is taken for, and what it holds.
* `YamlMaking.Sound`: What is known while data is made of a graph is right.
* `YamlMake.Makes`: Work that gives a result whenever what is known is right.
* `YamlMake.Filled`: The collections that have been looked into.

## Theorems

* `YamlMake.makes_contentOf`: What a collection holds is looked at.
* `YamlMake.gives_fill`: All collections that have been met are looked into.
* `YamlGraph.Shows.data_eq`: A graph stands for what its first node shows.
* `YamlNode.Stands.data_eq`: What a tree stands for is the data of its nodes.
-/

namespace Docket

namespace YamlGraph

variable {g : YamlGraph}

/-- What a node is taken for where it stands: a collection is put off. -/
def seen (g : YamlGraph) (n : Nat) : Value :=
  if (g.tag n).isCollection then .alien (.reference n) else (g.leafData n).toOption.getD .null

/-- What a collection holds. -/
def content (g : YamlGraph) (n : Nat) : Value :=
  match (g.point n).shape with
  | .scalar _ => .null
  | .list items => .list (items.map g.seen)
  | .map entries => .dict (entries.map fun e => (g.seen e.1, g.seen e.2))

/-- The nodes that a collection holds. -/
def inside (g : YamlGraph) (n : Nat) : List Nat :=
  match (g.point n).shape with
  | .scalar _ => []
  | .list items => items
  | .map entries => entries.flatMap fun e => [e.1, e.2]

theorem point_of_getElem? {n : Nat} {p : YamlPoint} (h : g[n]? = some p) :
    g.point n = p ∧ g.tag n = p.tag := by
  unfold tag point
  rw [h]
  exact ⟨rfl, rfl⟩

theorem leafData_scalar {n : Nat} {tag : YamlTag} {text : List Char} {v : Scalar}
    (hpoint : g[n]? = some ⟨tag, .scalar text⟩) (h : yamlLeaf tag text = .ok (.scalar v)) :
    g.leafData n = .ok (.scalar v) := by
  unfold leafData
  rw [(point_of_getElem? hpoint).1, (point_of_getElem? hpoint).2]
  exact h

/-- A scalar is taken for what it stands for. -/
theorem seen_scalar {n : Nat} {tag : YamlTag} {text : List Char} {v : Scalar}
    (hpoint : g[n]? = some ⟨tag, .scalar text⟩) (htag : tag.isCollection = false)
    (h : yamlLeaf tag text = .ok (.scalar v)) : g.seen n = .scalar v := by
  unfold seen
  rw [(point_of_getElem? hpoint).2, htag, leafData_scalar hpoint h]
  rfl

theorem seen_text {n : Nat} {name : String}
    (hpoint : g[n]? = some ⟨.text, .scalar name.toList⟩) : g.seen n = .text name := by
  refine seen_scalar hpoint rfl ?_
  rw [yamlLeaf, String.ofList_toList]
  rfl

theorem Shows.lt_size {n : Nat} {v : Value} (h : g.Shows n v) : n < g.size := by
  cases h with
  | scalar hpoint => exact (Array.getElem?_eq_some_iff.mp hpoint).1
  | list hpoint => exact (Array.getElem?_eq_some_iff.mp hpoint).1
  | map hpoint => exact (Array.getElem?_eq_some_iff.mp hpoint).1

/-- A node that is no collection has a text that makes sense. -/
theorem Shows.leafData_eq {n : Nat} {v : Value} (hn : g.Shows n v)
    (hcollection : (g.tag n).isCollection = false) : g.leafData n = .ok (g.seen n) := by
  cases hn with
  | scalar hpoint htag h =>
      rw [seen_scalar hpoint htag h]
      exact leafData_scalar hpoint h
  | list hpoint =>
      rw [(point_of_getElem? hpoint).2] at hcollection
      cases hcollection
  | map hpoint =>
      rw [(point_of_getElem? hpoint).2] at hcollection
      cases hcollection

end YamlGraph

/-- What is known while data is made of a graph is right. What has been met are
    different collections that stand for data. -/
structure YamlMaking.Sound (g : YamlGraph) (s : YamlMaking) : Prop where
  graph : s.graph = g
  values_size : s.values.size = g.size
  contents_size : s.contents.size = g.size
  values : ∀ n v, s.values[n]?.join = some v →
    v = g.seen n ∧ ((g.tag n).isCollection = true → n ∈ s.met)
  met : ∀ n ∈ s.met, s.values[n]?.join ≠ none ∧ (g.tag n).isCollection = true ∧ ∃ v, g.Shows n v
  distinct : s.met.toList.Nodup

/-- More may have been met, and nothing else has been looked into. -/
def YamlMaking.Grows (s s' : YamlMaking) : Prop :=
  s'.contents = s.contents ∧ s.met.toList <+: s'.met.toList

theorem YamlMaking.Grows.trans {s s' s'' : YamlMaking} (h : s.Grows s') (h' : s'.Grows s'') :
    s.Grows s'' :=
  ⟨h'.1.trans h.1, h.2.trans h'.2⟩

theorem YamlMaking.Grows.mem {s s' : YamlMaking} (h : s.Grows s') {n : Nat} (hn : n ∈ s.met) :
    n ∈ s'.met := by
  rw [← Array.mem_toList_iff] at hn ⊢
  exact h.2.subset hn

namespace YamlMake

section

variable {α β : Type} {g : YamlGraph}

/-- Work that gives `a` whenever what is known is right, and after which all collections
    among some nodes have been met. -/
def Makes (g : YamlGraph) (p : YamlMake α) (a : α) (ns : List Nat) : Prop :=
  ∀ s : YamlMaking, s.Sound g → ∃ s' : YamlMaking, Gives p s a s' ∧ s'.Sound g ∧ s.Grows s' ∧
    ∀ n ∈ ns, (g.tag n).isCollection = true → n ∈ s'.met

theorem makes_pure (a : α) : Makes g (pure a) a [] :=
  fun s hs => ⟨s, gives_pure a s, hs, ⟨rfl, List.prefix_refl _⟩, nofun⟩

theorem Makes.bind {p : YamlMake α} {f : α → YamlMake β} {a : α} {b : β} {ns ms : List Nat}
    (hp : Makes g p a ns) (hf : Makes g (f a) b ms) : Makes g (p >>= f) b (ns ++ ms) := by
  intro s hs
  obtain ⟨s₁, hgives₁, hsound₁, hgrows₁, hmet₁⟩ := hp s hs
  obtain ⟨s₂, hgives₂, hsound₂, hgrows₂, hmet₂⟩ := hf s₁ hsound₁
  refine ⟨s₂, hgives₁.bind hgives₂, hsound₂, hgrows₁.trans hgrows₂, fun n hn hcollection => ?_⟩
  rcases List.mem_append.mp hn with hn | hn
  · exact hgrows₂.mem (hmet₁ n hn hcollection)
  · exact hmet₂ n hn hcollection

theorem Makes.of_subset {p : YamlMake α} {a : α} {ns ms : List Nat} (hsub : ms ⊆ ns)
    (h : Makes g p a ns) : Makes g p a ms := by
  intro s hs
  obtain ⟨s', hgives, hsound, hgrows, hmet⟩ := h s hs
  exact ⟨s', hgives, hsound, hgrows, fun n hn => hmet n (hsub hn)⟩

/-- What looks at the graph sees the one that data is made of. -/
theorem makes_get {f : YamlMaking → YamlMake β} {b : β} {ns : List Nat}
    (h : ∀ s : YamlMaking, s.graph = g → Makes g (f s) b ns) : Makes g (get >>= f) b ns := by
  intro s hs
  obtain ⟨s', hgives, hrest⟩ := h s hs.graph s hs
  exact ⟨s', hgives, hrest⟩

end

variable {g : YamlGraph}

/-- A node that has been looked at is known. -/
theorem gives_valueOf_known {s : YamlMaking} {n : Nat} {v : Value}
    (h : s.values[n]?.join = some v) : Gives (valueOf n) s v s := by
  unfold valueOf
  refine (gives_get s).bind ?_
  rw [h]
  exact gives_pure v s

theorem gives_valueOf_collection {s : YamlMaking} {n : Nat} (h : s.values[n]?.join = none)
    (hcollection : (s.graph.tag n).isCollection = true) :
    Gives (valueOf n) s (.alien (.reference n)) { s with
      values := s.values.setIfInBounds n (some (.alien (.reference n))), met := s.met.push n } := by
  unfold valueOf
  refine (gives_get s).bind ?_
  rw [h]
  dsimp only
  rw [if_pos hcollection]
  rfl

theorem gives_valueOf_scalar {s : YamlMaking} {n : Nat} {v : Value}
    (h : s.values[n]?.join = none) (hcollection : (s.graph.tag n).isCollection = false)
    (hdata : s.graph.leafData n = .ok v) :
    Gives (valueOf n) s v { s with values := s.values.setIfInBounds n (some v) } := by
  unfold valueOf
  refine (gives_get s).bind ?_
  rw [h]
  dsimp only
  rw [hcollection, if_neg Bool.false_ne_true, hdata]
  rfl

/-- One more value is known. -/
theorem join_setIfInBounds {values : Array (Option Value)} {n m : Nat} {v : Value}
    (hn : n < values.size) :
    (values.setIfInBounds n (some v))[m]?.join = if m = n then some v else values[m]?.join := by
  rw [Array.getElem?_setIfInBounds]
  by_cases hm : m = n
  · rw [if_pos hm, if_pos hm.symm, if_pos (by omega)]
    rfl
  · rw [if_neg hm, if_neg (Ne.symm hm)]

/-- A collection that was not met before is met. -/
theorem sound_collection {s : YamlMaking} (hs : s.Sound g) {n : Nat} {v : Value}
    (hn : g.Shows n v) (hnew : s.values[n]?.join = none)
    (hcollection : (g.tag n).isCollection = true) : YamlMaking.Sound g { s with
      values := s.values.setIfInBounds n (some (g.seen n)), met := s.met.push n } := by
  have hlt : n < s.values.size := hs.values_size ▸ hn.lt_size
  refine ⟨hs.graph, by simpa using hs.values_size, hs.contents_size, fun m w hm => ?_,
    fun m hm => ?_, ?_⟩
  · rw [join_setIfInBounds hlt] at hm
    split at hm
    next heq => exact ⟨heq ▸ (Option.some.inj hm).symm, fun _ => heq ▸ Array.mem_push_self⟩
    next => exact ⟨(hs.values m w hm).1, fun hm' =>
      Array.mem_push_of_mem _ ((hs.values m w hm).2 hm')⟩
  · rw [join_setIfInBounds hlt]
    rcases Array.mem_push.mp hm with hm | rfl
    · refine ⟨?_, (hs.met m hm).2⟩
      split
      · exact Option.some_ne_none _
      · exact (hs.met m hm).1
    · rw [if_pos rfl]
      exact ⟨Option.some_ne_none _, hcollection, v, hn⟩
  · rw [Array.toList_push, List.nodup_append]
    refine ⟨hs.distinct, List.pairwise_singleton _ n, fun a ha b hb hab => ?_⟩
    -- What has been met is known, so it is not this one.
    rw [hab, List.mem_singleton.mp hb, Array.mem_toList_iff] at ha
    exact (hs.met n ha).1 hnew

/-- What a scalar stands for is noted. -/
theorem sound_scalar {s : YamlMaking} (hs : s.Sound g) {n : Nat} (hn : n < g.size)
    (hcollection : (g.tag n).isCollection = false) : YamlMaking.Sound g { s with
      values := s.values.setIfInBounds n (some (g.seen n)) } := by
  have hlt : n < s.values.size := hs.values_size ▸ hn
  refine ⟨hs.graph, by simpa using hs.values_size, hs.contents_size, fun m w hm => ?_,
    fun m hm => ?_, hs.distinct⟩
  · rw [join_setIfInBounds hlt] at hm
    split at hm
    next heq =>
      refine ⟨heq ▸ (Option.some.inj hm).symm, fun hm' => ?_⟩
      -- A scalar is no collection, so no content is owed for it.
      rw [heq, hcollection] at hm'
      exact absurd hm' Bool.false_ne_true
    next => exact hs.values m w hm
  · refine ⟨?_, (hs.met m hm).2⟩
    rw [join_setIfInBounds hlt]
    split
    · exact Option.some_ne_none _
    · exact (hs.met m hm).1

/-- A node is looked at. -/
theorem makes_valueOf {n : Nat} {v : Value} (hn : g.Shows n v) :
    Makes g (valueOf n) (g.seen n) [n] := by
  intro s hs
  -- A node that was met before has its value already. Of a collection there is first only the
  -- reference.
  cases hvalue : s.values[n]?.join with
  | some w =>
      obtain ⟨rfl, hmet⟩ := hs.values n w hvalue
      exact ⟨s, gives_valueOf_known hvalue, hs, ⟨rfl, List.prefix_refl _⟩, by simpa using hmet⟩
  | none =>
      by_cases hcollection : (g.tag n).isCollection = true
      · have hgives := gives_valueOf_collection hvalue (hs.graph ▸ hcollection)
        rw [← show g.seen n = .alien (.reference n) from if_pos hcollection] at hgives
        refine ⟨_, hgives, sound_collection hs hn hvalue hcollection, ⟨rfl, ?_⟩, fun m hm _ => ?_⟩
        · rw [Array.toList_push]
          exact List.prefix_append _ _
        · rw [List.mem_singleton.mp hm]
          exact Array.mem_push_self
      · rw [Bool.not_eq_true] at hcollection
        have hgives := gives_valueOf_scalar hvalue (hs.graph ▸ hcollection)
          (by rw [hs.graph]; exact hn.leafData_eq hcollection)
        refine ⟨_, hgives, sound_scalar hs hn.lt_size hcollection, ⟨rfl, List.prefix_refl _⟩,
          fun m hm hm' => ?_⟩
        rw [List.mem_singleton.mp hm, hcollection] at hm'
        exact absurd hm' Bool.false_ne_true

theorem makes_items {ps : List (Nat × Value)} (h : ∀ p ∈ ps, g.Shows p.1 p.2) :
    Makes g ((ps.map Prod.fst).mapM valueOf) ((ps.map Prod.fst).map g.seen) (ps.map Prod.fst) := by
  induction ps with
  | nil => exact makes_pure []
  | cons p rest ih =>
      rw [List.forall_mem_cons] at h
      rw [List.map_cons, List.mapM_cons]
      exact Makes.of_subset (by simp)
        (Makes.bind (makes_valueOf h.1) (Makes.bind (ih h.2) (makes_pure _)))

/-- An entry of a new key goes to the end. -/
theorem putEntry_append {node : Nat} {key : Value} (v : Value)
    {done : List (Nat × Value × Value)}
    (h : ∀ d ∈ done, d.1 ≠ node ∧ d.2.1.sameKey key = false) :
    putEntry node key v done = done ++ [(node, key, v)] := by
  induction done with
  | nil => rfl
  | cons d rest ih =>
      rw [List.forall_mem_cons] at h
      obtain ⟨m, k, w⟩ := d
      rw [putEntry, if_neg, ih h.2]
      · rfl
      · rintro (heq | heq)
        · exact h.1.1 heq
        · exact Bool.false_ne_true (h.1.2.symm.trans heq)

/-- One entry of a map is looked at. -/
def putMember (done : List (Nat × Value × Value)) (e : Nat × Nat) :
    YamlMake (List (Nat × Value × Value)) := do
  let key ← valueOf e.1
  if key.unhashable?.isSome then throw .malformed
  return putEntry e.1 key (← valueOf e.2) done

theorem mapData_eq (entries : List (Nat × Nat)) :
    mapData entries = do return (← entries.foldlM putMember []).map (·.2) := rfl

/-- An entry as it is put behind others. -/
def placed (g : YamlGraph) (p : YamlMember) : Nat × Value × Value :=
  (p.key, g.seen p.key, g.seen p.value)

/-- An entry whose key is a text that is no key yet. -/
theorem makes_putMember {ps : List YamlMember} {p : YamlMember}
    (hnew : p.name ∉ ps.map YamlMember.name)
    (hkeys : ∀ q ∈ ps ++ [p], g[q.key]? = some ⟨.text, .scalar q.name.toList⟩)
    (h : g.Shows p.value p.data) :
    Makes g (putMember (ps.map (placed g)) (p.key, p.value)) ((ps ++ [p]).map (placed g))
      [p.key, p.value] := by
  rw [List.forall_mem_append, List.forall_mem_singleton] at hkeys
  obtain ⟨hkeys, hkey⟩ := hkeys
  have hseen := YamlGraph.seen_text hkey
  -- The name is new, so that no entry is in its place.
  have hput : putEntry p.key (g.seen p.key) (g.seen p.value) (ps.map (placed g)) =
      (ps ++ [p]).map (placed g) := by
    rw [putEntry_append _ (List.forall_mem_map.mpr fun q hq => ?_), List.map_append]
    · rfl
    have hname : q.name ≠ p.name := fun heq => hnew (heq ▸ List.mem_map_of_mem hq)
    have hseen' := YamlGraph.seen_text (hkeys q hq)
    refine ⟨fun heq => hname ?_, ?_⟩
    · have hsame : g.seen q.key = g.seen p.key := congrArg g.seen heq
      rw [hseen', hseen] at hsame
      simpa [Value.text] using hsame
    · rw [placed, hseen', hseen]
      rw [Value.text, Value.text, Value.sameKey]
      exact beq_eq_false_iff_ne.mpr hname
  rw [← hput]
  have hshows : g.Shows p.key (.text p.name) :=
    .scalar hkey rfl (by rw [yamlLeaf, String.ofList_toList]; rfl)
  have hhash : (g.seen p.key).unhashable?.isSome = false := by rw [hseen]; rfl
  unfold putMember
  have hsub : [p.key, p.value] ⊆ [p.key] ++ ([p.value] ++ []) := by simp
  refine Makes.of_subset hsub (Makes.bind (makes_valueOf hshows) ?_)
  rw [hhash]
  exact Makes.bind (makes_valueOf h) (makes_pure _)

/-- The entries of a map whose keys are different texts are put behind each other. -/
theorem makes_entries {ps : List YamlMember}
    (hkeys : ∀ p ∈ ps, g[p.key]? = some ⟨.text, .scalar p.name.toList⟩)
    (h : ∀ p ∈ ps, g.Shows p.value p.data) :
    ∀ qs : List YamlMember, ((qs ++ ps).map YamlMember.name).Nodup →
      (∀ q ∈ qs, g[q.key]? = some ⟨.text, .scalar q.name.toList⟩) →
      Makes g ((ps.map fun p => (p.key, p.value)).foldlM putMember (qs.map (placed g)))
        ((qs ++ ps).map (placed g))
        ((ps.map fun p => (p.key, p.value)).flatMap fun e => [e.1, e.2]) := by
  induction ps with
  | nil =>
      intro qs _ _
      rw [List.append_nil]
      exact makes_pure _
  | cons p rest ih =>
      intro qs hnames hdone
      rw [List.forall_mem_cons] at hkeys h
      have hdone' : ∀ q ∈ qs ++ [p], g[q.key]? = some ⟨.text, .scalar q.name.toList⟩ := by
        rw [List.forall_mem_append, List.forall_mem_singleton]
        exact ⟨hdone, hkeys.1⟩
      -- The names are distinct, and those that are done come first.
      have hnew : p.name ∉ qs.map YamlMember.name := by
        rw [List.map_append, List.nodup_append] at hnames
        exact fun hmem => hnames.2.2 _ hmem _ (List.mem_map_of_mem List.mem_cons_self) rfl
      have hrest := ih hkeys.2 h.2 (qs ++ [p]) (by rw [List.append_assoc]; exact hnames) hdone'
      rw [List.append_assoc, List.singleton_append] at hrest
      rw [List.map_cons, List.foldlM_cons]
      exact Makes.of_subset (by simp) (Makes.bind (makes_putMember hnew hdone' h.1) hrest)

/-- The entries of a map whose keys are different texts. -/
theorem makes_mapData {ps : List YamlMember} (hnames : (ps.map YamlMember.name).Nodup)
    (hkeys : ∀ p ∈ ps, g[p.key]? = some ⟨.text, .scalar p.name.toList⟩)
    (h : ∀ p ∈ ps, g.Shows p.value p.data) :
    Makes g (mapData (ps.map fun p => (p.key, p.value)))
      ((ps.map fun p => (p.key, p.value)).map fun e => (g.seen e.1, g.seen e.2))
      ((ps.map fun p => (p.key, p.value)).flatMap fun e => [e.1, e.2]) := by
  have hentries := makes_entries hkeys h [] hnames nofun
  have hplaced : ((ps.map fun p => (p.key, p.value)).map fun e => (g.seen e.1, g.seen e.2)) =
      (ps.map (placed g)).map (·.2) := by
    rw [List.map_map, List.map_map]
    rfl
  rw [mapData_eq, hplaced]
  exact Makes.of_subset (by simp) (Makes.bind hentries (makes_pure _))

/-- Keys that are texts stay as they are. -/
theorem gives_keepAsText {keys : List Nat} (h : ∀ k ∈ keys, g.tag k ≠ .value) :
    Gives (YamlChange.keepAsText keys) g () g := by
  unfold YamlChange.keepAsText
  induction keys with
  | nil => exact gives_pure _ _
  | cons k rest ih =>
      rw [List.forall_mem_cons] at h
      have hkey : Gives (modify fun g => if g.tag k = .value then g.setTag k .text else g :
          YamlChange Unit) g () g := by
        change Except.ok ((), if g.tag k = .value then g.setTag k .text else g) = _
        rw [if_neg h.1]
      exact hkey.bind (ih h.2)

theorem gives_entriesOf {n : Nat} {entries : List (Nat × Nat)}
    (hentries : g.entries? n = some entries) : Gives (YamlChange.entriesOf n) g entries g := by
  unfold YamlChange.entriesOf
  refine (gives_get g).bind ?_
  rw [hentries]
  exact gives_pure _ _

/-- A map whose keys are texts takes over nothing. -/
theorem gives_merge {n : Nat} {entries : List (Nat × Nat)} (hentries : g.entries? n = some entries)
    (h : ∀ e ∈ entries, g.tag e.1 = .text) : Gives (YamlChange.merge n) g () g := by
  have hnone : (entries.map (·.1)).any (g.tag · == .merge) = false := by
    rw [List.any_map, List.any_eq_false]
    intro e he
    simp [h e he]
  unfold YamlChange.merge
  refine (gives_get g).bind ((gives_entriesOf hentries).bind ?_)
  dsimp only
  rw [hnone]
  exact gives_keepAsText (List.forall_mem_map.mpr fun e he => by rw [h e he]; decide)

theorem makes_entriesOf {n : Nat} {entries : List (Nat × Nat)}
    (hentries : g.entries? n = some entries) (h : ∀ e ∈ entries, g.tag e.1 = .text) :
    Makes g (entriesOf n) entries [] := by
  rintro ⟨g', values, contents, met⟩ hs
  obtain rfl : g' = g := hs.graph
  have hmerged : (do YamlChange.merge n; YamlChange.entriesOf n : YamlChange _).run g' =
      .ok (entries, g') := (gives_merge hentries h).bind (gives_entriesOf hentries)
  refine ⟨⟨g', values, contents, met⟩, ?_, hs, ⟨rfl, List.prefix_refl _⟩, nofun⟩
  unfold entriesOf
  refine (gives_get _).bind ?_
  dsimp only
  rw [hmerged]
  rfl

theorem makes_itemsOf {n : Nat} {items : List Nat} (hitems : g.items? n = some items) :
    Makes g (itemsOf n) items [] := by
  unfold itemsOf
  refine makes_get fun s hs => ?_
  rw [hs, hitems]
  exact makes_pure _

/-- What a collection holds is looked at. -/
theorem makes_contentOf {n : Nat} {v : Value} (hn : g.Shows n v)
    (hcollection : (g.tag n).isCollection = true) :
    Makes g (contentOf n) (g.content n) (g.inside n) := by
  unfold contentOf
  refine makes_get fun s hs => ?_
  rw [hs]
  -- What the node shows tells the shape of its point, and so which reader is at work.
  cases hn with
  | scalar hpoint htag h =>
      rw [(YamlGraph.point_of_getElem? hpoint).2, htag] at hcollection
      cases hcollection
  | @list _ ps hpoint hlater h =>
      obtain ⟨hpoint', htag⟩ := YamlGraph.point_of_getElem? hpoint
      have hitems : g.items? n = some (ps.map Prod.fst) := by
        unfold YamlGraph.items?
        rw [hpoint']
      unfold YamlGraph.content YamlGraph.inside
      rw [htag, hpoint']
      exact Makes.of_subset (by simp) (Makes.bind (makes_itemsOf hitems)
        (Makes.bind (makes_items h) (makes_pure _)))
  | @map _ ps hpoint hnames hlater hkeys h =>
      obtain ⟨hpoint', htag⟩ := YamlGraph.point_of_getElem? hpoint
      have hentries : g.entries? n = some (ps.map fun p => (p.key, p.value)) := by
        unfold YamlGraph.entries?
        rw [hpoint']
      have htext : ∀ e ∈ ps.map (fun p => (p.key, p.value)), g.tag e.1 = .text :=
        List.forall_mem_map.mpr fun p hp => (YamlGraph.point_of_getElem? (hkeys p hp)).2
      unfold YamlGraph.content YamlGraph.inside
      rw [htag, hpoint']
      exact Makes.of_subset (by simp) (Makes.bind (makes_entriesOf hentries htext)
        (Makes.bind (makes_mapData hnames hkeys h) (makes_pure _)))

/-- What has been met is no more than there is. -/
theorem size_met_le {s : YamlMaking} (hs : s.Sound g) : s.met.size ≤ g.size := by
  have hsub : s.met.toList ⊆ List.range g.size := by
    intro n hn
    have hknown := (hs.met n (Array.mem_toList_iff.mp hn)).1
    rw [List.mem_range, ← hs.values_size]
    by_contra hge
    rw [Array.getElem?_eq_none (Nat.le_of_not_lt hge)] at hknown
    exact hknown rfl
  have hlength := (List.subperm_of_subset hs.distinct hsub).length_le
  rwa [List.length_range, Array.length_toList] at hlength

/-- The first of the collections that have been met have been looked into, and so what
    they hold has been met. -/
def Filled (g : YamlGraph) (s : YamlMaking) (index : Nat) : Prop :=
  ∀ n ∈ s.met.toList.take index, s.contents[n]? = some (g.content n) ∧
    ∀ m ∈ g.inside n, (g.tag m).isCollection = true → m ∈ s.met

/-- A collection is looked into. -/
theorem filled_succ {s s' : YamlMaking} {index n : Nat} (hs : s'.Sound g)
    (hfilled : Filled g s index) (hn : s.met[index]? = some n) (hgrows : s.Grows s')
    (hinside : ∀ m ∈ g.inside n, (g.tag m).isCollection = true → m ∈ s'.met) :
    Filled g { s' with contents := s'.contents.setIfInBounds n (g.content n) } (index + 1) := by
  have hindex : index < s.met.toList.length := (Array.getElem?_eq_some_iff.mp hn).1
  obtain ⟨more, hmore⟩ := hgrows.2
  have hlt : n < s'.contents.size := by
    have hmet : n ∈ s'.met := hgrows.mem (Array.mem_of_getElem? hn)
    obtain ⟨v, hv⟩ := (hs.met n hmet).2.2
    exact hs.contents_size ▸ hv.lt_size
  intro m hm
  dsimp only at hm ⊢
  rw [← hmore, List.take_append_of_le_length hindex, List.take_add_one, List.mem_append,
    Array.getElem?_toList, hn, Option.toList_some, List.mem_singleton] at hm
  rw [Array.getElem?_setIfInBounds]
  rcases hm with hm | rfl
  · obtain ⟨hcontent, hmet⟩ := hfilled m hm
    refine ⟨?_, fun k hk hk' => hgrows.mem (hmet k hk hk')⟩
    -- It may be the same collection, whose content is the same.
    by_cases heq : n = m
    · rw [if_pos heq, if_pos hlt, heq]
    · rw [if_neg heq, hgrows.1, hcontent]
  · rw [if_pos rfl, if_pos hlt]
    exact ⟨rfl, hinside⟩

/-- In the end all collections that have been met have been looked into. -/
theorem gives_fill : ∀ (fuel index : Nat) (s : YamlMaking), s.Sound g → Filled g s index →
    index ≤ s.met.size → g.size ≤ fuel + index → ∃ s' : YamlMaking,
      Gives (fill fuel index) s () s' ∧ s'.Sound g ∧ (∀ n ∈ s.met, n ∈ s'.met) ∧
        Filled g s' s'.met.size := by
  intro fuel
  induction fuel with
  | zero =>
      intro index s hs hfilled hindex hfuel
      have hsize := size_met_le hs
      -- All nodes of the graph are met at most once, which the fuel is enough for.
      obtain rfl : index = s.met.size := by omega
      exact ⟨s, gives_pure _ _, hs, fun n hn => hn, hfilled⟩
  | succ fuel ih =>
      intro index s hs hfilled hindex hfuel
      cases hn : s.met[index]? with
      | none =>
          have hge := Array.getElem?_eq_none_iff.mp hn
          obtain rfl : index = s.met.size := Nat.le_antisymm hindex hge
          refine ⟨s, ?_, hs, fun n hn => hn, hfilled⟩
          rw [fill]
          refine (gives_get _).bind ?_
          rw [hn]
          exact gives_pure _ _
      | some n =>
          obtain ⟨-, hcollection, v, hv⟩ := hs.met n (Array.mem_of_getElem? hn)
          -- The next one is looked into, which may add others behind it.
          obtain ⟨s₁, hgives, hs₁, hgrows, hinside⟩ := makes_contentOf hv hcollection s hs
          have hlt : index < s₁.met.size := by
            have hlength := hgrows.2.length_le
            have hindex := (Array.getElem?_eq_some_iff.mp hn).1
            rw [Array.length_toList, Array.length_toList] at hlength
            omega
          have hs₂ : YamlMaking.Sound g
              { s₁ with contents := s₁.contents.setIfInBounds n (g.content n) } :=
            { hs₁ with contents_size := by simpa using hs₁.contents_size }
          obtain ⟨s₃, hgives₃, hs₃, hmet, hfilled₃⟩ := ih (index + 1) _ hs₂
            (filled_succ hs₁ hfilled hn hgrows hinside) hlt (by omega)
          refine ⟨s₃, ?_, hs₃, fun m hm => hmet m (hgrows.mem hm), hfilled₃⟩
          rw [fill]
          refine (gives_get _).bind ?_
          rw [hn]
          exact hgives.bind (Gives.bind rfl hgives₃)

end YamlMake

namespace YamlGraph

variable {g : YamlGraph}

theorem replaceInItems_seen {replace : Nat → Option Value} {ps : List (Nat × Value)}
    (h : ∀ p ∈ ps, (g.seen p.1).replaceReferences replace = some p.2) :
    replaceInItems replace ((ps.map Prod.fst).map g.seen) = some (ps.map Prod.snd) := by
  induction ps with
  | nil => rfl
  | cons p rest ih =>
      rw [List.forall_mem_cons] at h
      rw [List.map_cons, List.map_cons, replaceInItems, h.1, ih h.2]
      rfl

theorem replaceInEntries_seen {replace : Nat → Option Value} {ps : List YamlMember}
    (hkeys : ∀ p ∈ ps, g[p.key]? = some ⟨.text, .scalar p.name.toList⟩)
    (h : ∀ p ∈ ps, (g.seen p.value).replaceReferences replace = some p.data) :
    replaceInEntries replace
        ((ps.map fun p => (p.key, p.value)).map fun e => (g.seen e.1, g.seen e.2)) =
      some (ps.map fun p => (.text p.name, p.data)) := by
  induction ps with
  | nil => rfl
  | cons p rest ih =>
      rw [List.forall_mem_cons] at h hkeys
      rw [List.map_cons, List.map_cons, replaceInEntries, seen_text hkeys.1, h.1, ih hkeys.2 h.2]
      rfl

/-- With all collections that are met filled, a node is replaced by what it shows. The
    numbers of nodes grow on the way down, so it comes to an end. -/
theorem Shows.replaceReferences {contents : Array Value} {met : Array Nat}
    (hmet : ∀ n ∈ met, contents[n]? = some (g.content n) ∧
      ∀ m ∈ g.inside n, (g.tag m).isCollection = true → m ∈ met) {n : Nat} {v : Value}
    (h : g.Shows n v) : ∀ depth, g.size ≤ depth + n →
      ((g.tag n).isCollection = true → n ∈ met) →
      (g.seen n).replaceReferences (fun m => do
        (← contents[m]?).unfoldWithin? contents depth) = some v := by
  induction h with
  | scalar hpoint htag h =>
      intro depth _ _
      rw [seen_scalar hpoint htag h]
      rfl
  | @list n ps hpoint hlater h ih =>
      intro depth hdepth hn
      have hlt := (Array.getElem?_eq_some_iff.mp hpoint).1
      obtain ⟨hpoint', htag⟩ := point_of_getElem? hpoint
      have hcollection : (g.tag n).isCollection = true := by rw [htag]; rfl
      obtain ⟨hcontent, hinside⟩ := hmet n (hn hcollection)
      -- The node is in the graph, so that a level is left for what it holds.
      obtain ⟨depth, rfl⟩ : ∃ k, depth = k + 1 := ⟨depth - 1, by omega⟩
      have hitems := replaceInItems_seen fun p hp => ih p hp depth
        (by have := hlater p hp; omega) (hinside p.1 (by
          unfold inside
          rw [hpoint']
          exact List.mem_map_of_mem hp))
      have hlist : g.content n = .list ((ps.map Prod.fst).map g.seen) := by
        unfold content
        rw [hpoint']
      unfold seen
      rw [if_pos hcollection, Value.replaceReferences, hcontent, hlist]
      change Value.unfoldWithin? contents (depth + 1) _ = _
      rw [Value.unfoldWithin?, Value.list, Value.replaceReferences, hitems]
      rfl
  | @map n ps hpoint hnames hlater hkeys h ih =>
      intro depth hdepth hn
      have hlt := (Array.getElem?_eq_some_iff.mp hpoint).1
      obtain ⟨hpoint', htag⟩ := point_of_getElem? hpoint
      have hcollection : (g.tag n).isCollection = true := by rw [htag]; rfl
      obtain ⟨hcontent, hinside⟩ := hmet n (hn hcollection)
      obtain ⟨depth, rfl⟩ : ∃ k, depth = k + 1 := ⟨depth - 1, by omega⟩
      have hentries := replaceInEntries_seen hkeys fun p hp => ih p hp depth
        (by have := hlater p hp; omega) (hinside p.value (by
          unfold inside
          rw [hpoint']
          exact List.mem_flatMap.mpr ⟨_, List.mem_map_of_mem hp, by simp⟩))
      have hdict : g.content n =
          .dict ((ps.map fun p => (p.key, p.value)).map fun e => (g.seen e.1, g.seen e.2)) := by
        unfold content
        rw [hpoint']
      unfold seen
      rw [if_pos hcollection, Value.replaceReferences, hcontent, hdict]
      change Value.unfoldWithin? contents (depth + 1) _ = _
      rw [Value.unfoldWithin?, Value.dict, Value.replaceReferences, hentries]
      rfl

/-- Nothing is known at first. -/
theorem sound_start (g : YamlGraph) : YamlMaking.Sound g
    ⟨g, Array.replicate g.size none, Array.replicate g.size .null, #[]⟩ where
  graph := rfl
  values_size := Array.size_replicate
  contents_size := Array.size_replicate
  values := fun m w hm => by
    rw [Array.getElem?_replicate] at hm
    split at hm <;> cases hm
  met := nofun
  distinct := List.nodup_nil

/-- A graph stands for what its first node shows. -/
theorem Shows.data_eq {n : Nat} {v : Value} (h : g.Shows n v) : g.data n = .ok v := by
  obtain ⟨s₁, hgives₁, hs₁, -, hmet₁⟩ := YamlMake.makes_valueOf h _ (sound_start g)
  obtain ⟨s₂, hgives₂, hs₂, hmet₂, hfilled⟩ :=
    YamlMake.gives_fill g.size 0 s₁ hs₁ nofun (Nat.zero_le _) (Nat.le_refl _)
  have hrun : Gives (do let v ← YamlMake.valueOf n; YamlMake.fill g.size 0; return v)
      ⟨g, Array.replicate g.size none, Array.replicate g.size .null, #[]⟩ (g.seen n) s₂ :=
    hgives₁.bind (hgives₂.bind (gives_pure _ _))
  -- All contents that are referred to have been filled by then, so that every reference finds its
  -- data.
  have hunfold : Value.unfold? s₂.contents (g.seen n) = some v :=
    h.replaceReferences (fun m hm => hfilled m (by
      rw [← Array.length_toList, List.take_length]
      exact Array.mem_toList_iff.mpr hm)) s₂.contents.size
      (by rw [hs₂.contents_size]; omega)
      fun hcollection => hmet₂ n (hmet₁ n (List.mem_singleton.mpr rfl) hcollection)
  unfold data
  dsimp only
  rw [hrun]
  simp only [bind, Except.bind, hunfold]
  rfl

end YamlGraph

/-- What a tree stands for is the data of its nodes. -/
theorem YamlNode.Stands.data_eq {n : YamlNode} {v : Value} (h : n.Stands v) :
    YamlGraph.data (n.points 0).toArray 0 = .ok v :=
  (h.shows 0 (YamlGraph.holds_toArray _)).data_eq

end Docket
