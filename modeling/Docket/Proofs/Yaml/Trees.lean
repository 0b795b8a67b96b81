import Docket.Proofs.Payload.Preparation
import Docket.Proofs.Yaml.Data
import Docket.Proofs.Yaml.Numbers

/-!
# Data as trees of YAML

Data is written as a tree that stands for it, its dates being written out: numbers,
truth and nothing are plain and speak for themselves, and a text is a text whatever it
looks like. So nothing is lost before the tree is written.

What becomes of the tree is another matter. A text survives unless the writer and the
reader disagree about it, which depends on how the text is quoted and on how far it is
indented. Whether all texts of data survive is told from the data alone.

## Main definitions

* `Value.hasPlainNames`: Data whose names are plain texts.
* `Value.survivesYaml`: Data whose texts survive.
* `Content.HasTree`: Content that is written as a tree which stands for data.

## Theorems

* `Value.IsData.hasTree`: Data is written as a tree that stands for it.
-/

namespace Docket

/-- Whether a key is a plain text. -/
def Value.isPlainName : Value → Bool
  | .scalar (.text _ .plain) => true
  | _ => false

mutual

/-- Whether all names in data are plain texts. -/
def Value.hasPlainNames : Value → Bool
  | .items _ xs => itemsHavePlainNames xs
  | .mapping _ entries => entriesHavePlainNames entries
  | _ => true

def itemsHavePlainNames : List Value → Bool
  | [] => true
  | v :: rest => v.hasPlainNames && itemsHavePlainNames rest

def entriesHavePlainNames : List (Value × Value) → Bool
  | [] => true
  | (k, v) :: rest => k.isPlainName && (v.hasPlainNames && entriesHavePlainNames rest)

end

instance (indent : Nat) (s : YamlScalar) : Decidable (YamlNode.KeySurvives indent s) :=
  inferInstanceAs (Decidable (_ ∧ (_ → _)))

/-- Whether a name survives as a key at some indentation. -/
def Value.nameSurvivesYaml (indent : Nat) : Value → Bool
  | .scalar (.text s _) => decide (YamlNode.KeySurvives indent ⟨.text, s.toList⟩)
  | _ => false

mutual

/-- Whether all texts in data survive if the data is indented by no more than `indent`
    columns. -/
def Value.survivesYaml (indent : Nat) : Value → Bool
  | .scalar (.text s _) => YamlScalar.survives indent ⟨.text, s.toList⟩
  | .items _ xs => itemsSurviveYaml (indent + 2) xs
  | .mapping _ entries => entriesSurviveYaml indent entries
  | _ => true

def itemsSurviveYaml (indent : Nat) : List Value → Bool
  | [] => true
  | v :: rest => v.survivesYaml indent && itemsSurviveYaml indent rest

def entriesSurviveYaml (indent : Nat) : List (Value × Value) → Bool
  | [] => true
  | (k, v) :: rest =>
    k.nameSurvivesYaml indent && (v.survivesYaml (indent + 2) && entriesSurviveYaml indent rest)

end

theorem itemsSurviveYaml_iff {indent : Nat} {xs : List Value} :
    itemsSurviveYaml indent xs = true ↔ ∀ v ∈ xs, v.survivesYaml indent = true := by
  induction xs with
  | nil => exact iff_of_true rfl fun v hv => absurd hv List.not_mem_nil
  | cons v rest ih => rw [itemsSurviveYaml, Bool.and_eq_true, ih, List.forall_mem_cons]

theorem entriesSurviveYaml_iff {indent : Nat} {entries : List (Value × Value)} :
    entriesSurviveYaml indent entries = true ↔ ∀ e ∈ entries,
      e.1.nameSurvivesYaml indent = true ∧ e.2.survivesYaml (indent + 2) = true := by
  induction entries with
  | nil => exact iff_of_true rfl fun e he => absurd he List.not_mem_nil
  | cons e rest ih =>
      rw [entriesSurviveYaml, Bool.and_eq_true, Bool.and_eq_true, ih, List.forall_mem_cons,
        and_assoc]

theorem itemsHavePlainNames_iff {xs : List Value} :
    itemsHavePlainNames xs = true ↔ ∀ v ∈ xs, v.hasPlainNames = true := by
  induction xs with
  | nil => exact iff_of_true rfl fun v hv => absurd hv List.not_mem_nil
  | cons v rest ih => rw [itemsHavePlainNames, Bool.and_eq_true, ih, List.forall_mem_cons]

theorem entriesHavePlainNames_iff {entries : List (Value × Value)} :
    entriesHavePlainNames entries = true ↔
      ∀ e ∈ entries, e.1.isPlainName = true ∧ e.2.hasPlainNames = true := by
  induction entries with
  | nil => exact iff_of_true rfl fun e he => absurd he List.not_mem_nil
  | cons e rest ih =>
      rw [entriesHavePlainNames, Bool.and_eq_true, Bool.and_eq_true, ih, List.forall_mem_cons,
        and_assoc]

theorem hasPlainNames_fields {fs : Fields} : fs.toValue.hasPlainNames = true ↔
    ∀ f ∈ fs, f.1.form = .plain ∧ f.2.hasPlainNames = true := by
  have hname : ∀ n : Name, n.toValue.isPlainName = true ↔ n.form = .plain := by
    rintro ⟨text, form⟩
    cases form with
    | plain => exact iff_of_true rfl rfl
    | derived => exact iff_of_false Bool.false_ne_true nofun
    | encoding e => exact iff_of_false Bool.false_ne_true nofun
  rw [Fields.toValue, Value.dict, Value.hasPlainNames, entriesHavePlainNames_iff,
    List.forall_mem_map]
  exact forall₂_congr fun f _ => and_congr (hname f.1) Iff.rfl

/-- Content that is written as a tree which stands for data, and which survives if all
    texts of the data do. -/
def Content.HasTree (c : Content) (v : Value) : Prop :=
  ∃ n : YamlNode, c.toYaml? = some n ∧ n.Stands v ∧
    ∀ indent, v.survivesYaml indent = true → n.Survives indent

/-- A scalar whose text alone tells its tag needs no quotes, if it fits. -/
theorem survives_of_plain {s : YamlScalar} (hbytes : s.tag ≠ .bytes)
    (htag : yamlPlainTag s.text = s.tag) (hfits : s.fitsPlain = true) (hne : s.text ≠ [])
    (indent : Nat) : s.survives indent = true := by
  have hstyle : s.style = .plain := by
    unfold YamlScalar.style YamlScalar.isTelling
    rw [if_neg fun h => hbytes h.1, if_neg hbytes, htag, hfits, beq_self_eq_true]
    rfl
  unfold YamlScalar.survives
  rw [hstyle]
  rw [Bool.not_eq_true', List.isEmpty_eq_false_iff]
  exact hne

/-- Leaves that are no texts stand for themselves. -/
theorem hasTree_plain {c : Content} {v : Scalar} {tag : YamlTag} {text : List Char}
    (htree : c.toYaml? = some (.leaf tag text)) (hbytes : tag ≠ .bytes)
    (hcollection : tag.isCollection = false) (hread : yamlLeaf tag text = .ok (.scalar v))
    (htag : yamlPlainTag text = tag) (hfits : YamlScalar.fitsPlain ⟨tag, text⟩ = true)
    (hne : text ≠ []) : c.HasTree (.scalar v) :=
  ⟨_, htree, .scalar hcollection hread, fun indent _ =>
    .scalar (survives_of_plain hbytes htag hfits hne indent)⟩

theorem hasTree_null : Content.HasTree .null .null :=
  hasTree_plain rfl (by decide) rfl rfl (by decide) (by decide) (by decide)

theorem hasTree_bool (b : Bool) : Content.HasTree (.bool b) (.bool b) := by
  cases b with
  | true => exact hasTree_plain rfl (by decide) rfl rfl (by decide) (by decide) (by decide)
  | false => exact hasTree_plain rfl (by decide) rfl rfl (by decide) (by decide) (by decide)

theorem hasTree_int {n : Int} (h : n.natAbs < 10 ^ maxDigits) :
    Content.HasTree (.int n .plain) (.int n) := by
  have htree : Content.toYaml? (.int n .plain) = some (.leaf .int (toString n).toList) := by
    rw [Content.toYaml?, YamlNode.ofInt?, intText?, if_pos h]
    rfl
  have hread : yamlLeaf .int (toString n).toList = .ok (.int n) := by
    rw [yamlLeaf, yamlInt_toString h]
    rfl
  have hdigits := yamlDigits_toString n.natAbs
  rw [toList_toString_int] at htree hread
  exact hasTree_plain htree (by decide) rfl hread (yamlPlainTag_int hdigits _)
    ((hdigits.numeral _).fitsPlain _) (hdigits.numeral _).ne_nil

theorem hasTree_float {x : Binary64} (h : x.isFinite = true) :
    Content.HasTree (.float x .plain) (.float x) := by
  have hread : yamlLeaf .float (Layout.yaml.write x).toList = .ok (.float x) := by
    rw [yamlLeaf, yamlFloat_write h]
    rfl
  obtain ⟨p, hproper, htext, -, hpoint⟩ := writeDecimal_parts Layout.yaml (by decide) x.shortest
  have hnumeral := hproper.numeral x.negative
  have htree : Content.toYaml? (.float x .plain) =
      some (.leaf .float (Layout.yaml.write x).toList) := rfl
  rw [write_of_isFinite Layout.yaml h, htext] at htree hread
  exact hasTree_plain htree (by decide) rfl hread (yamlPlainTag_float hproper (hpoint rfl) _)
    (hnumeral.fitsPlain _) hnumeral.ne_nil

theorem hasTree_text (s : String) : Content.HasTree (.text s .plain) (.text s) := by
  refine ⟨_, rfl, .scalar rfl ?_, fun indent h => .scalar h⟩
  rw [yamlLeaf, String.ofList_toList]
  rfl

/-- A list of trees. -/
theorem hasTree_items {ps : List (Content × Value)} (h : ∀ p ∈ ps, p.1.HasTree p.2) :
    ∃ qs : List (YamlNode × Value), itemsToYaml? (ps.map Prod.fst) = some (qs.map Prod.fst) ∧
      ps.map Prod.snd = qs.map Prod.snd ∧
      ∀ q ∈ qs, q.1.Stands q.2 ∧
        ∀ indent, q.2.survivesYaml indent = true → q.1.Survives indent := by
  induction ps with
  | nil => exact ⟨[], rfl, rfl, fun q hq => absurd hq List.not_mem_nil⟩
  | cons p rest ih =>
      rw [List.forall_mem_cons] at h
      obtain ⟨n, htree, hstands, hsurvives⟩ := h.1
      obtain ⟨qs, hitems, hvalues, hqs⟩ := ih h.2
      refine ⟨(n, p.2) :: qs, ?_, ?_, ?_⟩
      · rw [List.map_cons, itemsToYaml?, htree, hitems]
        rfl
      · rw [List.map_cons, hvalues, List.map_cons]
      · rw [List.forall_mem_cons]
        exact ⟨⟨hstands, hsurvives⟩, hqs⟩

theorem hasTree_list {ps : List (Content × Value)} (h : ∀ p ∈ ps, p.1.HasTree p.2) :
    Content.HasTree (.list (ps.map Prod.fst)) (.list (ps.map Prod.snd)) := by
  obtain ⟨qs, hitems, hvalues, hqs⟩ := hasTree_items h
  rw [hvalues]
  refine ⟨_, by rw [Content.toYaml?, hitems]; rfl, .list fun q hq => (hqs q hq).1,
    fun indent hindent => .list ?_⟩
  rw [Value.list, Value.survivesYaml, itemsSurviveYaml_iff, List.forall_mem_map] at hindent
  exact List.forall_mem_map.mpr fun q hq => (hqs q hq).2 _ (hindent q hq)

/-- The trees of entries whose keys are plain texts. -/
theorem hasTree_entries {ps : List (Name × Content × Value)} (hplain : ∀ p ∈ ps, p.1.form = .plain)
    (h : ∀ p ∈ ps, p.2.1.HasTree p.2.2) :
    ∃ qs : List (String × YamlNode × Value),
      entriesToYaml? (ps.map fun p => (p.1.toValue, p.2.1)) =
        some (qs.map fun q => (.ofText q.1, q.2.1)) ∧
      ps.map (fun p => (p.1.text, p.2.2)) = qs.map (fun q => (q.1, q.2.2)) ∧
      ∀ q ∈ qs, q.2.1.Stands q.2.2 ∧
        ∀ indent, q.2.2.survivesYaml indent = true → q.2.1.Survives indent := by
  induction ps with
  | nil => exact ⟨[], rfl, rfl, fun q hq => absurd hq List.not_mem_nil⟩
  | cons p rest ih =>
      obtain ⟨⟨text, form⟩, c, v⟩ := p
      rw [List.forall_mem_cons] at h hplain
      obtain ⟨n, htree, hstands, hsurvives⟩ := h.1
      obtain ⟨qs, hentries, hvalues, hqs⟩ := ih hplain.2 h.2
      obtain rfl : form = .plain := hplain.1
      -- A plain name is written as the text that it is.
      refine ⟨(text, n, v) :: qs, ?_, ?_, ?_⟩
      · rw [List.map_cons, entriesToYaml?, htree, hentries]
        rfl
      · rw [List.map_cons, hvalues, List.map_cons]
      · rw [List.forall_mem_cons]
        exact ⟨⟨hstands, hsurvives⟩, hqs⟩

theorem hasTree_map {ps : List (Name × Content × Value)} (hplain : ∀ p ∈ ps, p.1.form = .plain)
    (hnames : (ps.map (·.1.text)).Nodup) (h : ∀ p ∈ ps, p.2.1.HasTree p.2.2) :
    Content.HasTree (.map (ps.map fun p => (p.1.toValue, p.2.1)))
      (.dict ((ps.map fun p => (p.1.text, p.2.2)).map fun m => (.text m.1, m.2))) := by
  obtain ⟨qs, hentries, hvalues, hqs⟩ := hasTree_entries hplain h
  have hnames' : (qs.map Prod.fst).Nodup := by
    have hfst := congrArg (List.map Prod.fst) hvalues
    rw [List.map_map, List.map_map] at hfst
    exact (show ps.map (·.1.text) = qs.map (·.1) from hfst) ▸ hnames
  rw [hvalues, List.map_map]
  refine ⟨_, by rw [Content.toYaml?, hentries]; rfl, .map hnames' fun q hq => (hqs q hq).1,
    fun indent hindent => ?_⟩
  rw [Value.dict, Value.survivesYaml, entriesSurviveYaml_iff, List.forall_mem_map] at hindent
  have hmap : YamlNode.Survives indent (.map .map ((qs.map fun q =>
      ((⟨.text, q.1.toList⟩ : YamlScalar), q.2.1)).map fun e => (.scalar e.1, e.2))) := .map
    (List.forall_mem_map.mpr fun q hq =>
      of_decide_eq_true (p := YamlNode.KeySurvives indent ⟨.text, q.1.toList⟩) (hindent q hq).1)
    (List.forall_mem_map.mpr fun q hq => (hqs q hq).2 _ (hindent q hq).2)
  rw [List.map_map] at hmap
  exact hmap

/-- Data is written as a tree that stands for it, its dates being written out. -/
theorem Value.IsData.hasTree {v : Value} (h : v.IsData) : v.Short → v.hasPlainNames = true →
    ∀ c, v.prepare = .ok c → c.HasTree v.written := by
  induction h with
  | @scalar s h =>
      intro hshort _ c hc
      rcases Scalar.prepare_cases h hc with
        ⟨rfl, rfl⟩ | ⟨b, rfl, rfl⟩ | ⟨n, rfl, rfl⟩ | ⟨x, rfl, hfinite, rfl⟩ | ⟨t, ht, rfl⟩
      · exact hasTree_null
      · exact hasTree_bool b
      · exact hasTree_int (short_iff.mp hshort _ (List.mem_singleton.mpr rfl) n _ rfl)
      · exact hasTree_float hfinite
      · rw [ht]
        exact hasTree_text t
  | @list xs h ih =>
      intro hshort hplain c hc
      rw [short_list] at hshort
      rw [Value.list, Value.hasPlainNames, itemsHavePlainNames_iff] at hplain
      obtain ⟨ps, rfl, hps, htrees⟩ := Value.prepare_list_pairs (P := Content.HasTree)
        (fun v hv => ih v hv (hshort v hv) (hplain v hv)) hc
      rw [hps]
      exact hasTree_list htrees
  | @fields fs hnames h ih =>
      intro hshort hplain c hc
      rw [short_fields] at hshort
      rw [hasPlainNames_fields] at hplain
      obtain ⟨ps, rfl, hps, htrees⟩ := Fields.prepare_pairs (P := Content.HasTree)
        (fun f hf => ih f hf (hshort f hf) (hplain f hf).2) hc
      rw [written_of_pairs hps]
      refine hasTree_map (fun p hp => ?_) (names_of_pairs hps ▸ hnames) htrees
      obtain ⟨f, hf, heq⟩ := mem_of_pairs hps hp
      exact heq ▸ (hplain f hf).1

end Docket
