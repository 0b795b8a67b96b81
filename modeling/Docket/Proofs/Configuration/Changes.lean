import Docket.Proofs.Configuration.Spelling
import Docket.Proofs.Work

/-!
# Changes of the settings

The settings are changed by calls, some of which fail. What a call does is said once
(`SettingsCall.perform_cases`): it asks for what there is, and then what it asks for is
set and the rest is as it was, or it does not, and then it fails and nothing is changed.

Settings that have only been changed by calls are those of some configuration
(`Configuration.toSettings`): the encoding is kept by its name and the layout as a truth.
So they are valid, and reading them gives that configuration back. Which one it is, is
told from the calls that succeeded (`lastSet`) and what they asked for, and not from the
settings they left.

## Main definitions

* `SettingsCall`: Calls that change the settings.
* `SettingsCall.encoding?`, `SettingsCall.pretty?`: What a call asks for.
* `SettingsCall.Sets`, `SettingsCall.LeadsTo`: What becomes of the settings.
* `makeAll`, `lastSet`: Calls in order, and what they set last.
* `Canonical`: What is known of the settings after some calls.

## Theorems

* `changeFrom_eq`: What texts from outside make of the settings.
* `SettingsCall.perform_cases`: What a call does.
* `SettingsCall.Sets.toSettings`, `makeAll_toSettings`: What a call and what many calls
  make of the settings of a configuration.
* `alike_of_encoding?`: Calls that ask for the same do the same.
* `settings_stay_canonical`: Settings are canonical after all calls.
-/

namespace Docket

/-- A call that changes the settings: by values, or by texts from outside. -/
inductive SettingsCall where
  | configure (encoding : Option Value) (pretty : Option Bool)
  | configureFrom (encoding pretty : Option String)

/-- The layout that a text from outside asks for. No text and the empty one ask for the
    compact one. -/
def layoutOf? : Option String → Option Bool
  | none => some false
  | some word => if word.isEmpty then some false else Configuration.truthOfWord? word

namespace SettingsCall

def perform : SettingsCall → Run Unit
  | configure encoding pretty => Docket.configure encoding (pretty.map .bool)
  | configureFrom encoding pretty => Docket.configureFrom encoding pretty

/-- What a call makes of the settings. -/
def change : SettingsCall → Settings → Except Failure Settings
  | configure encoding pretty, s => s.change encoding (pretty.map .bool)
  | configureFrom encoding pretty, s => s.changeFrom encoding pretty

/-- What a call asks for as the encoding. Where no text from outside says so, it is
    JSON. -/
def encoding? : SettingsCall → Option Value
  | configure none _ => none
  | configure (some (.scalar .null)) _ => none
  | configure (some v) _ => some v
  | configureFrom encoding _ => some (.text (encoding.getD Encoding.json.name))

/-- The layout that a call asks for. -/
def pretty? : SettingsCall → Option Bool
  | configure _ pretty => pretty
  | configureFrom _ pretty => layoutOf? pretty

/-- A call by values need not ask for a layout, texts from outside have to. -/
def HasLayout : SettingsCall → Prop
  | configure _ _ => True
  | configureFrom _ pretty => layoutOf? pretty ≠ none

/-- What a call asks for is there. -/
def IsValid (call : SettingsCall) : Prop :=
  (∀ v, call.encoding? = some v → ∃ e, Encoding.ofValue v = .ok e) ∧ call.HasLayout

/-- The settings have what a call asks for, and are otherwise as they were. -/
structure Sets (call : SettingsCall) (s s' : Settings) : Prop where
  encoding : ∀ v, call.encoding? = some v → ∃ e, Encoding.ofValue v = .ok e ∧ s'.encoding = e.name
  encoding_kept : call.encoding? = none → s'.encoding = s.encoding
  pretty : ∀ b, call.pretty? = some b → s'.pretty = .bool b
  pretty_kept : call.pretty? = none → s'.pretty = s.pretty

/-- A call that asks for what there is sets it, and any other call fails. -/
def LeadsTo (call : SettingsCall) (s : Settings) : Except Failure Settings → Prop
  | .ok s' => call.IsValid ∧ call.Sets s s'
  | .error _ => ¬ call.IsValid

end SettingsCall

/-- The settings of a configuration. -/
def Configuration.toSettings (c : Configuration) : Settings := ⟨c.encoding.name, .bool c.pretty⟩

/-- Makes calls one after another, whether or not they succeed. -/
def makeAll : List SettingsCall → Session → List (SettingsCall × Except Failure Unit) × Session
  | [], x => ([], x)
  | call :: rest, x =>
    let (r, x) := call.perform.run.run x
    let (made, x) := makeAll rest x
    ((call, r) :: made, x)

/-- What the last of the successful calls asked for that asked for something, or else
    what there was before. -/
def lastSet {α : Type} (asked : SettingsCall → Option α) :
    α → List (SettingsCall × Except Failure Unit) → α
  | a, [] => a
  | a, (call, .ok _) :: rest => lastSet asked ((asked call).getD a) rest
  | a, (_, .error _) :: rest => lastSet asked a rest

/-- Two calls both succeed, with the same settings, or both fail. -/
def Alike (x : Session) (a b : SettingsCall) : Prop :=
  ∃ r r' x', Yields a.perform x r x' ∧ Yields b.perform x r' x' ∧ (r = .ok () ↔ r' = .ok ())

/-- What is known of the settings after some calls. -/
structure Canonical (made : List (SettingsCall × Except Failure Unit)) (x : Session) : Prop where
  /-- they are valid, they are what was set last, and the encoding is kept by its name -/
  current : ∃ c, Yields Run.configuration x (.ok c) x ∧
    Encoding.ofValue (lastSet SettingsCall.encoding? (.text "json") made) = .ok c.encoding ∧
    lastSet SettingsCall.pretty? false made = c.pretty ∧
    x.settings.encoding = c.encoding.name ∧
    x.settings.encoding ∈ ["json", "yaml", "cbor", "msgpack"] ∧
    Encoding.ofName? x.settings.encoding = some c.encoding
  /-- one call more sets what it asks for, or fails and changes nothing -/
  next : ∀ call : SettingsCall,
    (call.IsValid ∧ ∃ s, Yields call.perform x (.ok ()) { x with settings := s } ∧
      call.Sets x.settings s) ∨
    (¬ call.IsValid ∧ ∃ e, Yields call.perform x (.error e) x)
  /-- it does not matter how an encoding is spelled -/
  alike : ∀ (s t : String) (form form' : TextForm) (pretty : Option Bool), SameSpelling s t →
    form.Fits s → form'.Fits t →
      Alike x (.configure (some (.scalar (.text s form))) pretty)
        (.configure (some (.scalar (.text t form'))) pretty)
  /-- nor in texts from outside -/
  alikeFrom : ∀ (s t : String) (pretty : Option String), SameSpelling s t →
    Alike x (.configureFrom (some s) pretty) (.configureFrom (some t) pretty)

/-! ### One call -/

theorem yields_changeSettings_ok {f : Settings → Except Failure Settings} {x : Session}
    {s : Settings} (h : f x.settings = .ok s) :
    Yields (Run.changeSettings f) x (.ok ()) { x with settings := s } := by
  unfold Run.changeSettings
  rw [yields_bind_ok (yields_get.mpr ⟨rfl, rfl⟩), h,
    yields_bind_ok (yields_ofExcept.mpr ⟨rfl, rfl⟩)]
  exact yields_set.mpr ⟨rfl, rfl⟩

theorem yields_changeSettings_error {f : Settings → Except Failure Settings} {x : Session}
    {e : Failure} (h : f x.settings = .error e) :
    Yields (Run.changeSettings f) x (.error e) x := by
  unfold Run.changeSettings
  rw [yields_bind_ok (yields_get.mpr ⟨rfl, rfl⟩), h,
    yields_bind_error (yields_ofExcept.mpr ⟨rfl, rfl⟩)]
  exact ⟨rfl, rfl⟩

theorem encoding?_configure {v : Value} (hv : v ≠ .scalar .null) (pretty : Option Bool) :
    (SettingsCall.configure (some v) pretty).encoding? = some v := by
  cases v with
  | scalar l =>
      cases l with
      | null => exact absurd rfl hv
      | _ => rfl
  | _ => rfl

theorem change_none (s : Settings) (pretty : Option Bool) : s.change none (pretty.map .bool) =
    .ok { s with pretty := (pretty.map Value.bool).getD s.pretty } := by
  cases pretty <;> rfl

/-- The encoding is set before the layout, and neither is if there is no such encoding. -/
theorem change_some {v : Value} (hv : v ≠ .scalar .null) (s : Settings) (pretty : Option Bool) :
    s.change (some v) (pretty.map .bool) = (Encoding.ofValue v).bind fun e =>
      .ok ⟨e.name, (pretty.map Value.bool).getD s.pretty⟩ := by
  have hstep : s.change (some v) (pretty.map .bool) = (Encoding.ofValue v).bind fun e =>
      Settings.change { s with encoding := e.name } none (pretty.map .bool) := by
    cases v with
    | scalar l =>
        cases l with
        | null => exact absurd rfl hv
        | _ => rfl
    | _ => rfl
  rw [hstep]
  simp only [change_none]

theorem ofValue_name (e : Encoding) : Encoding.ofValue (.text e.name) = .ok e :=
  (@Encoding.ofValue_eq_ok_iff e.name .plain nofun e).mpr (Encoding.ofName?_name e)

theorem make_text (encoding : Option String) (v : Value) :
    Configuration.make (encoding.map .text) (some v) =
      (Encoding.ofValue (.text (encoding.getD Encoding.json.name))).bind fun e =>
        match Configuration.truth? v with
        | some b => .ok ⟨e, b⟩
        | none => .error Configuration.invalid := by
  cases encoding with
  | none => rfl
  | some s => rfl

/-- Settings from outside are found valid as a whole before the first of them is made. -/
theorem changeFrom_eq (s : Settings) (encoding pretty : Option String) :
    s.changeFrom encoding pretty =
      (Encoding.ofValue (.text (encoding.getD Encoding.json.name))).bind fun e =>
        match layoutOf? pretty with
        | some b => .ok (Configuration.toSettings ⟨e, b⟩)
        | none => .error Configuration.invalid := by
  have hmake : ∃ v, Configuration.truth? v = layoutOf? pretty ∧ s.changeFrom encoding pretty =
      (Configuration.make (encoding.map .text) (some v)).bind fun c =>
        s.change (some (.text c.encoding.name)) (some (.bool c.pretty)) := by
    cases pretty with
    | none => exact ⟨.bool false, rfl, rfl⟩
    | some word =>
        -- The empty text is made false before any word is looked for in it.
        exact ⟨if word.isEmpty then .bool false else .text word, apply_ite _ _ _ _, rfl⟩
  have hchange (e : Encoding) (b : Bool) : s.change (some (.text e.name)) (some (.bool b)) =
      .ok (Configuration.toSettings ⟨e, b⟩) := by
    refine (change_some (v := .text e.name) nofun s (some b)).trans ?_
    rw [ofValue_name]
    rfl
  rcases hmake with ⟨v, hlayout, hmake⟩
  rw [hmake, make_text, hlayout]
  cases Encoding.ofValue (.text (encoding.getD Encoding.json.name)) with
  | error f => rfl
  | ok e =>
      cases layoutOf? pretty with
      | none => rfl
      | some b => exact hchange e b

namespace SettingsCall

theorem perform_eq (call : SettingsCall) : call.perform = Run.changeSettings call.change := by
  cases call <;> rfl

/-- A call by values. Where it asks for no encoding, there is nothing that could fail. -/
theorem leadsTo_configure (encoding : Option Value) (pretty : Option Bool) (s : Settings) :
    (configure encoding pretty).LeadsTo s (s.change encoding (pretty.map .bool)) := by
  have hpretty (b : Bool) (hb : pretty = some b) :
      (pretty.map Value.bool).getD s.pretty = .bool b := by rw [hb]; rfl
  have hkept (hb : pretty = none) : (pretty.map Value.bool).getD s.pretty = s.pretty := by
    rw [hb]; rfl
  -- Null asks for nothing, as if no encoding were given.
  by_cases hencoding : encoding = none ∨ encoding = some (.scalar .null)
  · have hasked : (configure encoding pretty).encoding? = none := by
      rcases hencoding with rfl | rfl <;> rfl
    have hchange : s.change encoding (pretty.map .bool) = s.change none (pretty.map .bool) := by
      rcases hencoding with rfl | rfl <;> rfl
    have hnone (v : Value) (hv : (configure encoding pretty).encoding? = some v) : False :=
      absurd (hasked.symm.trans hv) nofun
    rw [hchange, change_none]
    exact ⟨⟨fun v hv => (hnone v hv).elim, trivial⟩,
      fun v hv => (hnone v hv).elim, fun _ => rfl, hpretty, hkept⟩
  · rcases not_or.mp hencoding with ⟨hsome, hnull⟩
    rcases Option.ne_none_iff_exists'.mp hsome with ⟨v, rfl⟩
    have hv : v ≠ .scalar .null := fun h => hnull (congrArg some h)
    have hasked := encoding?_configure hv pretty
    rw [change_some hv]
    cases he : Encoding.ofValue v with
    | error f =>
        intro h
        rcases h.1 v hasked with ⟨e, he'⟩
        exact absurd (he.symm.trans he') nofun
    | ok e =>
        have hofValue (w : Value) (hw : (configure (some v) pretty).encoding? = some w) :
            Encoding.ofValue w = .ok e := Option.some.inj (hasked.symm.trans hw) ▸ he
        exact ⟨⟨fun w hw => ⟨e, hofValue w hw⟩, trivial⟩,
          fun w hw => ⟨e, hofValue w hw, rfl⟩, fun h => absurd (hasked.symm.trans h) nofun,
          hpretty, hkept⟩

/-- A call by texts from outside. It asks for both, or else it fails. -/
theorem leadsTo_configureFrom (encoding pretty : Option String) (s : Settings) :
    (configureFrom encoding pretty).LeadsTo s (s.changeFrom encoding pretty) := by
  rw [changeFrom_eq]
  cases hv : Encoding.ofValue (.text (encoding.getD Encoding.json.name)) with
  | error e =>
      intro h
      rcases h.1 _ rfl with ⟨e', he'⟩
      exact absurd (hv.symm.trans he') nofun
  | ok e =>
      -- The encoding is asked for in any case: one that is not given is the default.
      have hofValue (w : Value) (hw : (configureFrom encoding pretty).encoding? = some w) :
          Encoding.ofValue w = .ok e := Option.some.inj hw ▸ hv
      cases hpretty : layoutOf? pretty with
      | none => exact fun h => h.2 hpretty
      | some b =>
          refine ⟨⟨fun w hw => ⟨e, hofValue w hw⟩, fun h => absurd (hpretty.symm.trans h) nofun⟩,
            fun w hw => ⟨e, hofValue w hw, rfl⟩, nofun, fun b' hb' => ?_,
            fun hb' => absurd (hpretty.symm.trans hb') nofun⟩
          rw [← Option.some.inj (hpretty.symm.trans hb')]
          rfl

theorem leadsTo_change (call : SettingsCall) (s : Settings) : call.LeadsTo s (call.change s) := by
  cases call with
  | configure encoding pretty => exact leadsTo_configure encoding pretty s
  | configureFrom encoding pretty => exact leadsTo_configureFrom encoding pretty s

/-- What a call does: it sets what it asks for, or fails and changes nothing. -/
theorem perform_cases (call : SettingsCall) (x : Session) :
    (call.IsValid ∧ ∃ s, Yields call.perform x (.ok ()) { x with settings := s } ∧
      call.Sets x.settings s) ∨
    (¬ call.IsValid ∧ ∃ e, Yields call.perform x (.error e) x) := by
  have hleads := call.leadsTo_change x.settings
  rw [perform_eq]
  cases hs : call.change x.settings with
  | ok s =>
      rw [hs] at hleads
      exact Or.inl ⟨hleads.1, s, yields_changeSettings_ok hs, hleads.2⟩
  | error e =>
      rw [hs] at hleads
      exact Or.inr ⟨hleads, e, yields_changeSettings_error hs⟩

/-- A successful call makes the settings of a configuration those of another one, which
    has what was asked for. -/
theorem Sets.toSettings {call : SettingsCall} {c : Configuration} {s : Settings}
    (h : call.Sets c.toSettings s) {v : Value} (hv : Encoding.ofValue v = .ok c.encoding) :
    ∃ c' : Configuration, s = c'.toSettings ∧
      Encoding.ofValue (call.encoding?.getD v) = .ok c'.encoding ∧
      call.pretty?.getD c.pretty = c'.pretty := by
  -- What is asked for was accepted, and what is not asked for is as it was.
  have hencoding : ∃ e : Encoding, Encoding.ofValue (call.encoding?.getD v) = .ok e ∧
      s.encoding = e.name := by
    cases hasked : call.encoding? with
    | none => exact ⟨c.encoding, hv, h.encoding_kept hasked⟩
    | some w => exact h.encoding w hasked
  have hpretty : s.pretty = .bool (call.pretty?.getD c.pretty) := by
    cases hasked : call.pretty? with
    | none => exact h.pretty_kept hasked
    | some b => exact h.pretty b hasked
  rcases hencoding with ⟨e, he, hname⟩
  rcases s with ⟨name, layout⟩
  cases hname
  cases hpretty
  exact ⟨⟨e, _⟩, rfl, he, rfl⟩

/-- Calls that ask for the same set the same. -/
theorem Sets.eq {a b : SettingsCall} {s t t' : Settings} {v w : Value}
    (hv : a.encoding? = some v) (hw : b.encoding? = some w)
    (he : ∀ e, Encoding.ofValue v = .ok e ↔ Encoding.ofValue w = .ok e)
    (hpretty : a.pretty? = b.pretty?) (h : a.Sets s t) (h' : b.Sets s t') : t = t' := by
  rcases h.encoding v hv with ⟨e, hofv, hname⟩
  rcases h'.encoding w hw with ⟨e', hofw, hname'⟩
  have hsame : e = e' := Except.ok.inj (((he e).mp hofv).symm.trans hofw)
  have hlayout : t.pretty = t'.pretty := by
    cases hasked : a.pretty? with
    | none => rw [h.pretty_kept hasked, h'.pretty_kept (hpretty ▸ hasked)]
    | some b => rw [h.pretty b hasked, h'.pretty b (hpretty ▸ hasked)]
  rcases t with ⟨name, layout⟩
  rcases t' with ⟨name', layout'⟩
  cases hname
  cases hname'
  rw [hsame, show layout = layout' from hlayout]

end SettingsCall

/-! ### Many calls -/

theorem makeAll_cons {call : SettingsCall} {rest : List SettingsCall} {x x' : Session}
    {r : Except Failure Unit} (h : Yields call.perform x r x') :
    makeAll (call :: rest) x = ((call, r) :: (makeAll rest x').1, (makeAll rest x').2) := by
  unfold Yields at h
  rw [makeAll, h]

/-- Whatever calls are made, the settings of a configuration are made those of another
    one, by induction on the calls: a successful one makes what it sets the start for
    the rest, a failed one leaves the start. -/
theorem makeAll_toSettings (calls : List SettingsCall) : ∀ {x : Session} {c : Configuration}
    {v : Value}, x.settings = c.toSettings → Encoding.ofValue v = .ok c.encoding →
    ∃ c' : Configuration, (makeAll calls x).2.settings = c'.toSettings ∧
      Encoding.ofValue (lastSet SettingsCall.encoding? v (makeAll calls x).1) =
        .ok c'.encoding ∧
      lastSet SettingsCall.pretty? c.pretty (makeAll calls x).1 = c'.pretty := by
  induction calls with
  | nil => exact fun hx hv => ⟨_, hx, hv, rfl⟩
  | cons call rest ih =>
      intro x c v hx hv
      rcases call.perform_cases x with ⟨-, s, hyields, hsets⟩ | ⟨-, e, hyields⟩
      · rw [hx] at hsets
        rcases hsets.toSettings hv with ⟨c', rfl, hv', hpretty⟩
        rw [makeAll_cons hyields, lastSet, lastSet, hpretty]
        exact ih rfl hv'
      · -- The session is as it was, and so is what was set last.
        rw [makeAll_cons hyields, lastSet, lastSet]
        exact ih hx hv

/-! ### What is known of the settings -/

theorem validate_toSettings (c : Configuration) : c.toSettings.validate = .ok c := by
  rcases c with ⟨e, b⟩
  have hvalidate : Settings.validate (Configuration.toSettings ⟨e, b⟩) =
      Configuration.make ((some e.name).map .text) (some (.bool b)) := by
    cases e <;> cases b <;> rfl
  rw [hvalidate, make_text, Option.getD_some, ofValue_name]
  rfl

/-- Calls that ask for the same do the same. -/
theorem alike_of_encoding? {x : Session} {a b : SettingsCall} {v w : Value}
    (hv : a.encoding? = some v) (hw : b.encoding? = some w)
    (he : ∀ e, Encoding.ofValue v = .ok e ↔ Encoding.ofValue w = .ok e)
    (hpretty : a.pretty? = b.pretty?) (hlayout : a.HasLayout ↔ b.HasLayout) :
    Alike x a b := by
  have hvalid : a.IsValid ↔ b.IsValid := by
    refine and_congr ⟨fun h w' hw' => ?_, fun h v' hv' => ?_⟩ hlayout
    · rw [← Option.some.inj (hw.symm.trans hw')]
      exact (h v hv).imp fun e => (he e).mp
    · rw [← Option.some.inj (hv.symm.trans hv')]
      exact (h w hw).imp fun e => (he e).mpr
  -- Both are valid or neither is, so that the two mixed cases do not arise.
  rcases a.perform_cases x with ⟨ha, s, hs, hsets⟩ | ⟨ha, _, hs⟩ <;>
    rcases b.perform_cases x with ⟨hb, t, ht, hsets'⟩ | ⟨hb, _, ht⟩
  · rw [SettingsCall.Sets.eq hv hw he hpretty hsets hsets'] at hs
    exact ⟨_, _, _, hs, ht, Iff.rfl⟩
  · exact absurd (hvalid.mp ha) hb
  · exact absurd (hvalid.mpr hb) ha
  · exact ⟨_, _, _, hs, ht, iff_of_false nofun nofun⟩

theorem canonical_of_toSettings {made : List (SettingsCall × Except Failure Unit)} {x : Session}
    {c : Configuration} (hx : x.settings = c.toSettings)
    (hencoding : Encoding.ofValue (lastSet SettingsCall.encoding? (.text "json") made) =
      .ok c.encoding)
    (hpretty : lastSet SettingsCall.pretty? false made = c.pretty) : Canonical made x where
  current := by
    have hname : x.settings.encoding = c.encoding.name := by rw [hx]; rfl
    -- A session with the settings of a configuration gives back the configuration.
    have hread : Yields Run.configuration x (.ok c) x := by
      unfold Run.configuration
      rw [yields_bind_ok (yields_get.mpr ⟨rfl, rfl⟩), yields_ofExcept, hx, validate_toSettings]
      exact ⟨rfl, rfl⟩
    refine ⟨c, hread, hencoding, hpretty, hname, ?_, ?_⟩
    · rw [hname]
      cases c.encoding <;> decide
    · rw [hname, Encoding.ofName?_name]
  next call := call.perform_cases x
  alike s t form form' pretty h hform hform' :=
    alike_of_encoding? rfl rfl (Encoding.ofValue_iff_of_sameSpelling h hform hform')
      rfl Iff.rfl
  alikeFrom s t pretty h :=
    alike_of_encoding? rfl rfl (Encoding.ofValue_iff_of_sameSpelling h nofun nofun)
      rfl Iff.rfl

/-- The settings are canonical after all calls, whichever of them succeeded: they are
    valid and have what was set last, and a failed call changes nothing. -/
theorem settings_stay_canonical (calls : List SettingsCall) (x : Session) :
    Canonical (makeAll calls { x with settings := .seed none none }).1
      (makeAll calls { x with settings := .seed none none }).2 := by
  have hstart : Settings.seed none none = Configuration.toSettings ⟨.json, false⟩ := rfl
  rcases makeAll_toSettings calls (x := { x with settings := .seed none none }) hstart
    (ofValue_name .json) with ⟨c, hc, hencoding, hpretty⟩
  exact canonical_of_toSettings hc hencoding hpretty

theorem yaml_respelled_alike : SameSpelling "YAML" " yaml ; q=1" ∧
    Alike (makeAll [.configure (some (.text "xml")) (some true)] .initial).2
      (.configure (some (.text "YAML")) none) (.configure (some (.text " yaml ; q=1")) none) := by
  have hblank : ∀ c ∈ [' '], isBlank c = true := List.forall_mem_singleton.mpr (by decide +kernel)
  have hspelling : SameSpelling "YAML" " yaml ; q=1" :=
    .trans _ "yaml".toList _ (.rel _ _ (.letters rfl)) <|
      .trans _ " yaml ".toList _
        (.rel _ _ (.blanks _ hblank hblank))
        (.rel _ _ (.parameters _ " q=1".toList))
  exact ⟨hspelling,
    (settings_stay_canonical _ .initial).alike _ _ .plain .plain none hspelling nofun nofun⟩

end Docket
