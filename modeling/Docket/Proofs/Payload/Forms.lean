import Docket.Proofs.Payload.Preparation
import Docket.Proofs.Recording.Shadowing

/-!
# Forms and writers

Three of the writers do not look at forms: a number or a text, be it a value or a key,
is written in plain form whatever its form is. The writer of YAML does, and refuses what
is not in plain form, so what it writes is in plain form already.

Preparing data in plain form gives the content of the data in plain form.

## Main definitions

* `Content.bare`: Content in plain form.

## Theorems

* `Value.prepare_bare`: Data in plain form is prepared as the content in plain form.
* `Content.jsonAt_bare`, `Content.writeCbor_bare`, `Content.writeMessagePack_bare`: Forms
  are of no consequence to these writers.
* `Content.bare_of_toYaml?`: What has a YAML tree is in plain form.
* `Content.write_eq_bare`: Content is written as it is in plain form.
-/

namespace Docket

mutual

/-- Content in plain form, keys included. -/
def Content.bare : Content → Content
  | .int n _ => .int n .plain
  | .float x _ => .float x .plain
  | .text s _ => .text s .plain
  | .list items => .list (bareContents items)
  | .map entries => .map (bareContentEntries entries)
  | c => c

def bareContents : List Content → List Content
  | [] => []
  | c :: rest => c.bare :: bareContents rest

def bareContentEntries : List (Value × Content) → List (Value × Content)
  | [] => []
  | (k, c) :: rest => (k.bare, c.bare) :: bareContentEntries rest

end

/-! ## Preparation -/

theorem Scalar.prepare_plain (s : Scalar) :
    Resembles Content.bare s.prepare s.plain.prepare := by
  cases s with
  | datetime t =>
      change Resembles Content.bare (Scalar.datetime t).prepare (Scalar.datetime t).prepare
      rw [Scalar.prepare]
      cases t.text? with
      | some s => exact .ok (Content.text s .plain)
      | none => exact .error _ _
  | _ => exact .ok _

/-- What is made of two results alike is alike. -/
theorem Resembles.bind {α β γ δ : Type} {f : α → β} {g : γ → δ} {x : Except Failure α}
    {y : Except Failure β} {k : α → Except Failure γ} {k' : β → Except Failure δ}
    (hx : Resembles f x y) (hk : ∀ a, Resembles g (k a) (k' (f a))) :
    Resembles g (x >>= k) (y >>= k') := by
  cases hx with
  | ok a => exact hk a
  | error e e' => exact .error e e'

mutual

/-- Data in plain form is prepared as its content in plain form. -/
theorem Value.prepare_bare : (v : Value) → Resembles Content.bare v.prepare v.bare.prepare
  | .scalar s => s.prepare_plain
  | .items kind xs => by
    -- Of collections only lists and maps are prepared, and all others are refused in either form.
    cases kind with
    | list => exact (prepareItems_bare xs).bind fun cs => .ok (Content.list cs)
    | _ => exact .error _ _
  | .mapping kind entries => by
    cases kind with
    | plain => exact (prepareEntries_bare entries).bind fun es => .ok (Content.map es)
    | ordered => exact (prepareEntries_bare entries).bind fun es => .ok (Content.map es)
    | _ => exact .error _ _
  | .alien _ => .error _ _
  | .range .. => .error _ _
  | .encodings => .error _ _
  | .generator .. => .error _ _
  | .body _ => .error _ _
  | .bodyItems .. => .error _ _
  | .failure _ => .error _ _
  | .node _ => .error _ _
  | .block _ => .error _ _
  | .fieldRef .. => .error _ _
  | .live _ => .error _ _
  | .tag .. => .error _ _

theorem prepareItems_bare : (xs : List Value) →
    Resembles bareContents (prepareItems xs) (prepareItems (bareItems xs))
  | [] => .ok []
  | v :: rest => v.prepare_bare.bind fun c => (prepareItems_bare rest).bind fun cs => .ok (c :: cs)

theorem prepareEntries_bare : (entries : List (Value × Value)) →
    Resembles bareContentEntries (prepareEntries entries) (prepareEntries (bareEntries entries))
  | [] => .ok []
  | (k, v) :: rest =>
    v.prepare_bare.bind fun c => (prepareEntries_bare rest).bind fun es => .ok ((k, c) :: es)

end

/-! ## Writers to which forms are of no consequence -/

theorem length_bareContents (cs : List Content) : (bareContents cs).length = cs.length := by
  induction cs with
  | nil => rfl
  | cons c rest ih => rw [bareContents, List.length_cons, ih, List.length_cons]

theorem length_bareContentEntries (es : List (Value × Content)) :
    (bareContentEntries es).length = es.length := by
  induction es with
  | nil => rfl
  | cons e rest ih => rw [bareContentEntries, List.length_cons, ih, List.length_cons]

theorem jsonKey_bare (k : Value) : jsonKey k.bare = jsonKey k := by
  cases k with
  | scalar s => cases s <;> rfl
  | node n => cases n <;> rfl
  | body b => cases b; rfl
  | _ => rfl

mutual

theorem Content.jsonAt_bare (layout : JsonLayout) (level : Nat) : (c : Content) →
    c.bare.jsonAt layout level = c.jsonAt layout level
  | .null => rfl
  | .bool _ => rfl
  | .int .. => rfl
  | .float .. => rfl
  | .text .. => rfl
  | .list [] => rfl
  | .list (c :: rest) => by
    simp only [Content.bare, bareContents, Content.jsonAt]
    rw [← bareContents, jsonItems_bare layout (level + 1) (c :: rest)]
  | .map [] => rfl
  | .map (e :: rest) => by
    simp only [Content.bare, bareContentEntries, Content.jsonAt]
    rw [← bareContentEntries, jsonEntries_bare layout (level + 1) (e :: rest)]

theorem jsonItems_bare (layout : JsonLayout) (level : Nat) : (cs : List Content) →
    jsonItems layout level (bareContents cs) = jsonItems layout level cs
  | [] => rfl
  | [c] => by
    simp only [bareContents, jsonItems, c.jsonAt_bare layout level]
  | c :: d :: rest => by
    have hrest := jsonItems_bare layout level (d :: rest)
    rw [bareContents] at hrest
    simp only [bareContents, jsonItems, c.jsonAt_bare layout level, hrest]

theorem jsonEntries_bare (layout : JsonLayout) (level : Nat) : (es : List (Value × Content)) →
    jsonEntries layout level (bareContentEntries es) = jsonEntries layout level es
  | [] => rfl
  | [(k, c)] => by
    simp only [bareContentEntries, jsonEntries, jsonKey_bare, c.jsonAt_bare layout level]
  | (k, c) :: e :: rest => by
    have hrest := jsonEntries_bare layout level (e :: rest)
    rw [bareContentEntries] at hrest
    simp only [bareContentEntries, jsonEntries, jsonKey_bare, c.jsonAt_bare layout level, hrest]

end

mutual

theorem cborKey?_bare : (k : Value) → cborKey? k.bare = cborKey? k
  | .scalar s => by cases s <;> rfl
  | .items kind xs => by
    cases kind <;>
      simp only [Value.bare, cborKey?, cborKeys?_bare xs, length_bareItems]
  | .mapping .. => rfl
  | .alien _ => rfl
  | .range .. => rfl
  | .encodings => rfl
  | .generator .. => rfl
  | .body _ => rfl
  | .bodyItems .. => rfl
  | .failure _ => rfl
  | .node _ => rfl
  | .block _ => rfl
  | .fieldRef .. => rfl
  | .live _ => rfl
  | .tag .. => rfl

theorem cborKeys?_bare : (ks : List Value) →
    cborKey?.cborKeys? (bareItems ks) = cborKey?.cborKeys? ks
  | [] => rfl
  | k :: rest => by
    rw [bareItems, cborKey?.cborKeys?, cborKey?.cborKeys?, cborKey?_bare k, cborKeys?_bare rest]

end

mutual

theorem Content.writeCbor_bare : (c : Content) → c.bare.writeCbor = c.writeCbor
  | .null => rfl
  | .bool _ => rfl
  | .int .. => rfl
  | .float .. => rfl
  | .text .. => rfl
  | .list items => by
    rw [Content.bare, Content.writeCbor, Content.writeCbor, length_bareContents,
      writeCborItems_bare items]
  | .map entries => by
    rw [Content.bare, Content.writeCbor, Content.writeCbor, length_bareContentEntries,
      writeCborEntries_bare entries]

theorem writeCborItems_bare : (cs : List Content) →
    writeCborItems (bareContents cs) = writeCborItems cs
  | [] => rfl
  | c :: rest => by
    rw [bareContents, writeCborItems, writeCborItems, c.writeCbor_bare, writeCborItems_bare rest]

theorem writeCborEntries_bare : (es : List (Value × Content)) →
    writeCborEntries (bareContentEntries es) = writeCborEntries es
  | [] => rfl
  | (k, c) :: rest => by
    rw [bareContentEntries, writeCborEntries, writeCborEntries, cborKey?_bare, c.writeCbor_bare,
      writeCborEntries_bare rest]

end

mutual

theorem messagePackKey?_bare : (k : Value) → messagePackKey? k.bare = messagePackKey? k
  | .scalar s => by cases s <;> rfl
  | .items kind xs => by
    cases kind <;>
      simp only [Value.bare, messagePackKey?, messagePackKeys?_bare xs, length_bareItems]
  | .mapping .. => rfl
  | .alien _ => rfl
  | .range .. => rfl
  | .encodings => rfl
  | .generator .. => rfl
  | .body _ => rfl
  | .bodyItems .. => rfl
  | .failure _ => rfl
  | .node _ => rfl
  | .block _ => rfl
  | .fieldRef .. => rfl
  | .live _ => rfl
  | .tag .. => rfl

theorem messagePackKeys?_bare : (ks : List Value) →
    messagePackKey?.messagePackKeys? (bareItems ks) = messagePackKey?.messagePackKeys? ks
  | [] => rfl
  | k :: rest => by
    rw [bareItems, messagePackKey?.messagePackKeys?, messagePackKey?.messagePackKeys?,
      messagePackKey?_bare k, messagePackKeys?_bare rest]

end

mutual

theorem Content.writeMessagePack_bare : (c : Content) →
    c.bare.writeMessagePack = c.writeMessagePack
  | .null => rfl
  | .bool _ => rfl
  | .int .. => rfl
  | .float .. => rfl
  | .text .. => rfl
  | .list items => by
    rw [Content.bare, Content.writeMessagePack, Content.writeMessagePack, length_bareContents,
      writeMessagePackItems_bare items]
  | .map entries => by
    rw [Content.bare, Content.writeMessagePack, Content.writeMessagePack,
      length_bareContentEntries, writeMessagePackEntries_bare entries]

theorem writeMessagePackItems_bare : (cs : List Content) →
    writeMessagePackItems (bareContents cs) = writeMessagePackItems cs
  | [] => rfl
  | c :: rest => by
    rw [bareContents, writeMessagePackItems, writeMessagePackItems, c.writeMessagePack_bare,
      writeMessagePackItems_bare rest]

theorem writeMessagePackEntries_bare : (es : List (Value × Content)) →
    writeMessagePackEntries (bareContentEntries es) = writeMessagePackEntries es
  | [] => rfl
  | (k, c) :: rest => by
    rw [bareContentEntries, writeMessagePackEntries, writeMessagePackEntries,
      messagePackKey?_bare, c.writeMessagePack_bare, writeMessagePackEntries_bare rest]

end

/-! ## The writer that refuses other forms -/

mutual

/-- What is written as a key is in plain form. -/
theorem bare_of_ofKey? : (k : Value) → (n : YamlNode) → YamlNode.ofKey? k = some n → k.bare = k
  | .scalar s, n, h => by
    -- No key is written that is of a derived class, and the plain ones are as they were.
    cases s with
    | int m form => cases form with
      | plain => rfl
      | derived => exact absurd h nofun
    | float x form => cases form with
      | plain => rfl
      | derived => exact absurd h nofun
    | text t form => cases form with
      | plain => rfl
      | derived => exact absurd h nofun
      | encoding e => exact absurd h nofun
    | _ => rfl
  | .items kind xs, n, h => by
    cases kind with
    | tuple =>
        rw [YamlNode.ofKey?] at h
        rcases Option.map_eq_some_iff.mp h with ⟨ns, hns, -⟩
        exact congrArg (Value.items .tuple) (bare_of_ofKeys? xs ns hns)
    | _ => exact absurd h nofun
  | .alien _, _, _ => rfl
  | .mapping .., _, h => absurd h nofun
  | .range .., _, h => absurd h nofun
  | .encodings, _, h => absurd h nofun
  | .generator .., _, h => absurd h nofun
  | .body _, _, h => absurd h nofun
  | .bodyItems .., _, h => absurd h nofun
  | .failure _, _, h => absurd h nofun
  | .node _, _, h => absurd h nofun
  | .block _, _, h => absurd h nofun
  | .fieldRef .., _, h => absurd h nofun
  | .live _, _, h => absurd h nofun
  | .tag .., _, h => absurd h nofun

theorem bare_of_ofKeys? : (ks : List Value) → (ns : List YamlNode) →
    YamlNode.ofKey?.ofKeys? ks = some ns → bareItems ks = ks
  | [], _, _ => rfl
  | k :: rest, ns, h => by
    rw [YamlNode.ofKey?.ofKeys?] at h
    rcases Option.bind_eq_some_iff.mp h with ⟨n, hn, h⟩
    rcases Option.bind_eq_some_iff.mp h with ⟨ms, hms, -⟩
    rw [bareItems, bare_of_ofKey? k n hn, bare_of_ofKeys? rest ms hms]

end

mutual

/-- What has a tree is in plain form. -/
theorem Content.bare_of_toYaml? : (c : Content) → (n : YamlNode) → c.toYaml? = some n → c.bare = c
  | .null, _, _ => rfl
  | .bool _, _, _ => rfl
  | .int m form, _, h => by
    -- YAML has no tag for a derived form, so such content has no tree.
    cases form with
    | plain => rfl
    | derived => exact absurd h nofun
  | .float x form, _, h => by
    cases form with
    | plain => rfl
    | derived => exact absurd h nofun
  | .text t form, _, h => by
    cases form with
    | plain => rfl
    | derived => exact absurd h nofun
    | encoding e => exact absurd h nofun
  | .list items, _, h => by
    rw [Content.toYaml?] at h
    rcases Option.map_eq_some_iff.mp h with ⟨ns, hns, -⟩
    rw [Content.bare, bare_of_itemsToYaml? items ns hns]
  | .map entries, _, h => by
    rw [Content.toYaml?] at h
    rcases Option.map_eq_some_iff.mp h with ⟨ns, hns, -⟩
    rw [Content.bare, bare_of_entriesToYaml? entries ns hns]

theorem bare_of_itemsToYaml? : (cs : List Content) → (ns : List YamlNode) →
    itemsToYaml? cs = some ns → bareContents cs = cs
  | [], _, _ => rfl
  | c :: rest, ns, h => by
    rw [itemsToYaml?] at h
    rcases Option.bind_eq_some_iff.mp h with ⟨n, hn, h⟩
    rcases Option.bind_eq_some_iff.mp h with ⟨ms, hms, -⟩
    rw [bareContents, c.bare_of_toYaml? n hn, bare_of_itemsToYaml? rest ms hms]

theorem bare_of_entriesToYaml? : (es : List (Value × Content)) →
    (ns : List (YamlNode × YamlNode)) → entriesToYaml? es = some ns → bareContentEntries es = es
  | [], _, _ => rfl
  | (k, c) :: rest, ns, h => by
    rw [entriesToYaml?] at h
    rcases Option.bind_eq_some_iff.mp h with ⟨key, hkey, h⟩
    rcases Option.bind_eq_some_iff.mp h with ⟨n, hn, h⟩
    rcases Option.bind_eq_some_iff.mp h with ⟨ms, hms, -⟩
    rw [bareContentEntries, bare_of_ofKey? k key hkey, c.bare_of_toYaml? n hn,
      bare_of_entriesToYaml? rest ms hms]

end

/-! ## All writers -/

/-- Content is written in plain form if it is in plain form for the writer that asks for
    it. -/
theorem Content.write_eq_bare {c : Content} {e : Encoding} (h : e = .yaml → c.bare = c)
    (layout : JsonLayout) : c.bare.write e layout = c.write e layout := by
  cases e with
  | json => unfold Content.write Content.writeJson; rw [c.jsonAt_bare]
  | yaml => rw [h rfl]
  | cbor => unfold Content.write; rw [c.writeCbor_bare]
  | msgpack => unfold Content.write; rw [c.writeMessagePack_bare]

/-- What content is written as, its plain form is written as. -/
theorem Content.write_bare {c : Content} {e : Encoding} {layout : JsonLayout} {payload : Bytes}
    (h : c.write e layout = .ok payload) : c.bare.write e layout = .ok payload := by
  rw [Content.write_eq_bare, h]
  rintro rfl
  rcases Content.write_yaml_eq_ok.mp h with ⟨cs, hcs, -⟩
  rcases Option.map_eq_some_iff.mp hcs with ⟨n, hn, -⟩
  exact c.bare_of_toYaml? n hn

end Docket
