import Docket.Payload
import Docket.Proofs.Text.Utf8
import Docket.Proofs.Yaml.DataFaults

/-!
# Failures of decoding

Whatever is handed over to be decoded, whatever encoding is asked for and whatever the
readers of the encodings do, there is data or an error. If no encoding can be told, because
what is asked for names none or because the payload does not begin like any, the error says
so; and else no error does. In an encoding that is told, a payload is reported as malformed if
it is a text and has to be bytes, or if its reader raises one of the errors that say so.

What leaves decoding besides are two things only (`Leaves`). A text with halves of characters
has no bytes, and fails when they are asked for. And a reader may raise an error that is not
among those that say that the payload is malformed; nothing else is caught. Nothing is assumed
of readers here: they may look up a word that they do not know, compute a number that is too
large, or call themselves more often than the interpreter allows.

Of the readers as they are modelled, only YAML's raises such errors. A tag may be written
before a text that it makes no sense of, and of such texts some are looked up, indexed or taken
apart without a check. An escape between double quotes may have a number that is too large for
a character, and a number in counts of sixty may have so many parts that it is too large.
`Escapes` lists these errors, each with the mark that a text must have for it; a text without
any of the marks is read or is malformed.

## Main definitions

* `RawPayload.encodingFor`, `RawPayload.decodeFor`: Decoding as it is asked for.
* `RawPayload.StandsFor`, `RawPayload.Broken`: The bytes of a payload, and why it has none.
* `RawPayload.Told`, `RawPayload.Untold`: The encoding of a payload, and why it has none.
* `DecodesTo`: What decoding may come to, with the condition on which it does.
* `Escapes`: The errors of reading YAML that do not say that a text is malformed.

## Theorems

* `decodeFor_eq_iff`: Decoding comes to an outcome exactly on its condition.
* `load_uncaught`: Of the modelled readers, only YAML's lets errors through.
* `decodeFor_answers`: What decoding comes to, with any readers.
* `doubtfulText_escapes`: A text whose error is no parse error.
-/

namespace Docket

namespace RawPayload

/-- The encoding of a payload: the one asked for, or the one it begins like if nothing is
    asked for. -/
def encodingFor (p : RawPayload) (asked : Value) : Except Failure Encoding :=
  match asked with
  | .scalar .null => p.detect
  | asked => Encoding.ofValue asked

/-- The data of a payload in the encoding asked for. -/
def decodeFor (readers : Readers) (p : RawPayload) (asked : Value) : Except Failure Value :=
  match asked with
  | .scalar .null => p.decode readers none
  | asked => do p.decode readers (some (← Encoding.ofValue asked))

/-- The bytes that a payload is or, being a text that is all characters, stands for. -/
inductive StandsFor : RawPayload → Bytes → Prop
  | bytes (b : Bytes) : StandsFor (.bytes b) b
  | text (cs : List Char) : StandsFor (.text (cs.map .char)) (encodeUtf8 cs)

/-- A text that has no bytes, since half of a character stands in it. The error tells where
    the first one stands, and how far the halves go if others follow it at once. -/
inductive Broken : RawPayload → LibraryError → Prop
  | half {cs : List Char} {n : Fin 2048} {rest : List TextPart}
      (hrest : ∀ m, rest.head? ≠ some (.half m)) :
      Broken (.text (cs.map .char ++ .half n :: rest)) ⟨"UnicodeEncodeError",
        "'utf-8' codec can't encode character '\\u" ++ String.ofList (hexDigits 4 (0xD800 + n)) ++
          "' in position " ++ toString cs.length ++ ": surrogates not allowed"⟩
  | halves {cs : List Char} {n m : Fin 2048} {ns : List (Fin 2048)} {rest : List TextPart}
      (hrest : ∀ k, rest.head? ≠ some (.half k)) :
      Broken (.text (cs.map .char ++ ((n :: m :: ns).map .half ++ rest))) ⟨"UnicodeEncodeError",
        "'utf-8' codec can't encode characters in position " ++ toString cs.length ++ "-" ++
          toString (cs.length + ns.length + 1) ++ ": surrogates not allowed"⟩

/-- The encoding that is told: what is asked for names it, or nothing is asked for and the
    payload begins like it. -/
inductive Told (p : RawPayload) : Value → Encoding → Prop
  | named {asked : Value} {e : Encoding} (h : Encoding.ofValue asked = .ok e) : Told p asked e
  | detected {bytes : Bytes} {e : Encoding} (hbytes : p.StandsFor bytes)
      (h : Encoding.detect? bytes = some e) : Told p (.scalar .null) e

/-- No encoding is told: what is asked for names none, or nothing is asked for and the payload
    begins like none. -/
inductive Untold (p : RawPayload) : Value → Failure → Prop
  | unknown {asked : Value} (hasked : asked ≠ .scalar .null)
      (h : ∀ e, Encoding.ofValue asked ≠ .ok e) : Untold p asked (.unknownEncoding asked)
  | undetected {bytes : Bytes} (hbytes : p.StandsFor bytes)
      (h : Encoding.detect? bytes = none) : Untold p (.scalar .null) (.undetected (bytes.take 8))

/-- A payload can be read in an encoding, unless it is a text and has to be bytes. -/
def Readable (p : RawPayload) (e : Encoding) : Prop := p.isText = true → e.binary = false

end RawPayload

/-- An error says that what was read is malformed: it belongs to the errors of a library, or to
    those of values or types. -/
def LibraryError.SaysMalformed (g : LibraryError) : Prop :=
  ∃ name ∈ ["ValueError", "TypeError", "YAMLError", "CBORDecodeError", "UnpackException"],
    g.cls.isA name = true

/-- A payload is told to be malformed: it is a text and has to be bytes, or its reader raises
    an error that says so. -/
inductive Malformed (readers : Readers) (p : RawPayload) (e : Encoding) : Failure → Prop
  | text (h : ¬ p.Readable e) : Malformed readers p e (.bytesNeeded e)
  | read {bytes : Bytes} {g : LibraryError} {cause : Option Failure} (hreadable : p.Readable e)
      (hbytes : p.StandsFor bytes) (hread : readers e bytes = .error g) (h : g.SaysMalformed)
      (hcause : cause = if e = .json then some (.ofLibrary g) else none) :
      Malformed readers p e (.readerFailed e cause)

/-- The errors that leave decoding and are not of this library: a text has no bytes where
    they are asked for, or a reader raises an error that does not say that its bytes are
    malformed. -/
inductive Leaves (readers : Readers) (p : RawPayload) (asked : Value) : LibraryError → Prop
  | broken {g : LibraryError} (hneeded : asked = .scalar .null ∨
      ∃ e, p.Told asked e ∧ p.Readable e) (h : p.Broken g) : Leaves readers p asked g
  | uncaught {e : Encoding} {bytes : Bytes} {g : LibraryError} (htold : p.Told asked e)
      (hreadable : p.Readable e) (hbytes : p.StandsFor bytes)
      (hread : readers e bytes = .error g) (h : ¬ g.SaysMalformed) : Leaves readers p asked g

/-- Everything that decoding may come to, with the condition on which it does. -/
inductive DecodesTo (readers : Readers) (p : RawPayload) (asked : Value) :
    Except Failure Value → Prop
  | untold {f : Failure} (h : p.Untold asked f)
      (hkind : f.kind? = some .unsupportedEncoding) : DecodesTo readers p asked (.error f)
  | malformed {e : Encoding} {f : Failure} (htold : p.Told asked e)
      (h : Malformed readers p e f) (hkind : f.kind? = some .parse) :
      DecodesTo readers p asked (.error f)
  | leaves {g : LibraryError} (h : Leaves readers p asked g) :
      DecodesTo readers p asked (.error (.ofLibrary g))
  | data {e : Encoding} {bytes : Bytes} {v : Value} (htold : p.Told asked e)
      (hreadable : p.Readable e) (hbytes : p.StandsFor bytes) (hread : readers e bytes = .ok v) :
      DecodesTo readers p asked (.ok v)

/-! ## Payloads and their encodings -/

section

variable {p : RawPayload} {asked : Value} {e : Encoding}

/-- A text begins with as many halves as there are, perhaps none. -/
theorem TextPart.exists_halves (parts : List TextPart) :
    ∃ (ns : List (Fin 2048)) (rest : List TextPart), parts = ns.map .half ++ rest ∧
      ∀ m, rest.head? ≠ some (.half m) := by
  induction parts with
  | nil => exact ⟨[], [], rfl, nofun⟩
  | cons part rest ih =>
      cases part with
      | char c => exact ⟨[], .char c :: rest, rfl, nofun⟩
      | half n =>
          rcases ih with ⟨ns, rest, rfl, hrest⟩
          exact ⟨n :: ns, rest, rfl, hrest⟩

/-- A text is all characters, or behind some of them come halves. -/
theorem TextPart.characters_or_halves (parts : List TextPart) :
    (∃ cs : List Char, parts = cs.map .char) ∨
      ∃ (cs : List Char) (n : Fin 2048) (ns : List (Fin 2048)) (rest : List TextPart),
        parts = cs.map .char ++ ((n :: ns).map .half ++ rest) ∧
          ∀ m, rest.head? ≠ some (.half m) := by
  induction parts with
  | nil => exact Or.inl ⟨[], rfl⟩
  | cons part rest ih =>
      cases part with
      | char c =>
          rcases ih with ⟨cs, rfl⟩ | ⟨cs, n, ns, rest, rfl, hrest⟩
          · exact Or.inl ⟨c :: cs, rfl⟩
          · exact Or.inr ⟨c :: cs, n, ns, rest, rfl, hrest⟩
      | half n =>
          rcases TextPart.exists_halves rest with ⟨ns, rest, rfl, hrest⟩
          exact Or.inr ⟨[], n, ns, rest, rfl, hrest⟩

/-- What is looked for in a text with halves: the characters before them, and the halves. -/
theorem TextPart.takeWhile_halves (cs : List Char) (n : Fin 2048) (ns : List (Fin 2048))
    {rest : List TextPart} (hrest : ∀ m, rest.head? ≠ some (.half m)) :
    (cs.map char ++ ((n :: ns).map half ++ rest)).takeWhile isChar = cs.map char ∧
      ((n :: ns).map half ++ rest).takeWhile (!·.isChar) = (n :: ns).map half := by
  constructor
  · rw [List.takeWhile_append_of_pos (List.forall_mem_map.mpr fun _ _ => rfl)]
    exact List.append_nil _
  · rw [List.takeWhile_append_of_pos (List.forall_mem_map.mpr fun _ _ => rfl)]
    cases rest with
    | nil => exact List.append_nil _
    | cons part rest =>
        cases part with
        | char c => exact List.append_nil _
        | half m => exact absurd rfl (hrest m)

/-- A text with halves fails where the first of them are. -/
theorem RawPayload.toBytes_halves (cs : List Char) (n : Fin 2048) (ns : List (Fin 2048))
    {rest : List TextPart} (hrest : ∀ m, rest.head? ≠ some (.half m)) :
    (RawPayload.text (cs.map .char ++ ((n :: ns).map .half ++ rest))).toBytes =
      .error (TextPart.unwritable cs.length ((n :: ns).map .half)) := by
  rcases TextPart.takeWhile_halves cs n ns hrest with ⟨hchars, hhalves⟩
  have hhalf : ¬ (cs.map TextPart.char ++ ((n :: ns).map TextPart.half ++ rest)).all
      (·.isChar) = true :=
    fun hall => absurd (List.all_eq_true.mp hall (.half n) (List.mem_append_right _
      (List.mem_append_left _ List.mem_cons_self))) Bool.false_ne_true
  rw [RawPayload.toBytes, if_neg hhalf, hchars]
  dsimp only
  rw [List.drop_left, hhalves, List.length_map]

theorem RawPayload.StandsFor.toBytes {bytes : Bytes} (h : p.StandsFor bytes) :
    p.toBytes = .ok bytes := by
  cases h with
  | bytes _ => rfl
  | text cs => exact RawPayload.toBytes_text cs

theorem RawPayload.Broken.toBytes {g : LibraryError} (h : p.Broken g) :
    p.toBytes = .error g := by
  cases h with
  | half hrest => exact RawPayload.toBytes_halves _ _ [] hrest
  | halves hrest =>
      -- There are two at least, so that the range they make up is told.
      rw [RawPayload.toBytes_halves _ _ _ hrest, List.map_cons, List.map_cons,
        TextPart.unwritable, List.length_cons, List.length_cons, List.length_map,
        Nat.add_sub_cancel, ← Nat.add_assoc]
      exact nofun

/-- A payload has bytes, or is a text that has none. -/
theorem RawPayload.standsFor_or_broken (p : RawPayload) :
    (∃ bytes, p.StandsFor bytes) ∨ ∃ g, p.Broken g := by
  cases p with
  | bytes b => exact Or.inl ⟨b, .bytes b⟩
  | text parts =>
      rcases TextPart.characters_or_halves parts with ⟨cs, rfl⟩ | ⟨cs, n, ns, rest, rfl, hrest⟩
      · exact Or.inl ⟨_, .text cs⟩
      · cases ns with
        | nil => exact Or.inr ⟨_, .half hrest⟩
        | cons m ns => exact Or.inr ⟨_, .halves hrest⟩

/-- What is asked for names an encoding, or is shown as unknown. -/
theorem Encoding.ofValue_cases (asked : Value) :
    (∃ e, Encoding.ofValue asked = .ok e) ∨
      Encoding.ofValue asked = .error (.unknownEncoding asked) := by
  unfold Encoding.ofValue
  split
  · exact Or.inl ⟨_, rfl⟩
  next s _ _ =>
    cases Encoding.ofName? s with
    | some e => exact Or.inl ⟨e, rfl⟩
    | none => exact Or.inr rfl
  · exact Or.inr rfl

/-- If something is asked for, the payload makes no difference. -/
theorem RawPayload.encodingFor_of_ne (hasked : asked ≠ .scalar .null) :
    p.encodingFor asked = Encoding.ofValue asked := by
  unfold RawPayload.encodingFor
  split
  · exact absurd rfl hasked
  · rfl

/-- If nothing is asked for, the bytes decide. -/
theorem RawPayload.StandsFor.encodingFor {bytes : Bytes} (h : p.StandsFor bytes) :
    p.encodingFor (.scalar .null) = Encoding.detect bytes := by
  unfold RawPayload.encodingFor RawPayload.detect
  rw [h.toBytes]
  rfl

theorem RawPayload.Told.encodingFor (h : p.Told asked e) : p.encodingFor asked = .ok e := by
  cases h with
  | named h => rwa [RawPayload.encodingFor_of_ne fun hnull => absurd (hnull ▸ h) nofun]
  | detected hbytes h => rw [hbytes.encodingFor, Encoding.detect, h]

theorem RawPayload.Untold.encodingFor {f : Failure} (h : p.Untold asked f) :
    p.encodingFor asked = .error f ∧ f.kind? = some .unsupportedEncoding := by
  cases h with
  | unknown hasked h =>
      refine ⟨?_, rfl⟩
      rw [RawPayload.encodingFor_of_ne hasked]
      exact (Encoding.ofValue_cases asked).resolve_left fun hok => h _ hok.choose_spec
  | undetected hbytes h =>
      refine ⟨?_, rfl⟩
      rw [hbytes.encodingFor, Encoding.detect, h]

/-- An encoding is told, none is, or nothing is asked for and the payload has no bytes. -/
theorem RawPayload.told_cases (p : RawPayload) (asked : Value) :
    (∃ e, p.Told asked e) ∨ (∃ f, p.Untold asked f) ∨
      asked = .scalar .null ∧ ∃ g, p.Broken g := by
  by_cases hasked : asked = .scalar .null
  · subst hasked
    rcases p.standsFor_or_broken with ⟨bytes, hbytes⟩ | hbroken
    · cases hdetect : Encoding.detect? bytes with
      | some e => exact Or.inl ⟨e, .detected hbytes hdetect⟩
      | none => exact Or.inr (Or.inl ⟨_, .undetected hbytes hdetect⟩)
    · exact Or.inr (Or.inr ⟨rfl, hbroken⟩)
  · by_cases hnamed : ∃ e, Encoding.ofValue asked = .ok e
    · rcases hnamed with ⟨e, he⟩
      exact Or.inl ⟨e, .named he⟩
    · exact Or.inr (Or.inl ⟨_, .unknown hasked (not_exists.mp hnamed)⟩)

theorem RawPayload.bytesFor_of_not_readable (h : ¬ p.Readable e) :
    p.bytesFor e = .error (.bytesNeeded e) := by
  unfold RawPayload.Readable at h
  rw [Classical.not_imp, Bool.not_eq_false] at h
  rw [RawPayload.bytesFor, h.1, h.2]
  rfl

theorem RawPayload.Readable.bytesFor (h : p.Readable e) :
    p.bytesFor e = p.toBytes.mapError .ofLibrary := by
  refine if_neg fun hboth => ?_
  rw [Bool.and_eq_true] at hboth
  exact absurd hboth.2 (Bool.eq_false_iff.mp (h hboth.1))

end

/-! ## Decoding with any readers -/

/-- The classes that say so are those that are caught. -/
theorem LibraryError.isCaught_iff {g : LibraryError} :
    g.isCaught malformedClasses = true ↔ g.SaysMalformed :=
  List.any_eq_true

section

variable {readers : Readers} {p : RawPayload} {asked : Value} {e : Encoding}

theorem RawPayload.decodeFor_eq : p.decodeFor readers asked =
    (p.encodingFor asked).bind fun e => (p.bytesFor e).bind fun bytes =>
      (readers e bytes).mapError e.readFailure := by
  unfold RawPayload.decodeFor RawPayload.encodingFor
  split
  · rfl
  · rfl

theorem RawPayload.Told.decodeFor (h : p.Told asked e) :
    p.decodeFor readers asked =
      (p.bytesFor e).bind fun bytes => (readers e bytes).mapError e.readFailure := by
  rw [RawPayload.decodeFor_eq, h.encodingFor]
  rfl

/-- A payload that can be read and has bytes comes to what its reader makes of them. -/
theorem RawPayload.Told.decodeFor_readable {bytes : Bytes} (htold : p.Told asked e)
    (hreadable : p.Readable e) (hbytes : p.StandsFor bytes) :
    p.decodeFor readers asked = (readers e bytes).mapError e.readFailure := by
  rw [htold.decodeFor, hreadable.bytesFor, hbytes.toBytes]
  rfl

/-- What its reader raises is reported or let through. -/
theorem RawPayload.Told.decodeFor_error {bytes : Bytes} {g : LibraryError} (htold : p.Told asked e)
    (hreadable : p.Readable e) (hbytes : p.StandsFor bytes) (hread : readers e bytes = .error g) :
    p.decodeFor readers asked = .error (e.readFailure g) := by
  rw [htold.decodeFor_readable hreadable hbytes, hread]
  rfl

theorem RawPayload.Untold.decodeFor {f : Failure} (h : p.Untold asked f) :
    p.decodeFor readers asked = .error f := by
  rw [RawPayload.decodeFor_eq, h.encodingFor.1]
  rfl

/-- What says that a payload is malformed is reported. -/
theorem Malformed.decodeFor {f : Failure} (h : Malformed readers p e f)
    (htold : p.Told asked e) : p.decodeFor readers asked = .error f := by
  cases h with
  | text h =>
      rw [htold.decodeFor, RawPayload.bytesFor_of_not_readable h]
      rfl
  | read hreadable hbytes hread h hcause =>
      rw [htold.decodeFor_error hreadable hbytes hread, Encoding.readFailure,
        if_pos (LibraryError.isCaught_iff.mpr h), hcause]

/-- Everything else leaves. -/
theorem Leaves.decodeFor {g : LibraryError} (h : Leaves readers p asked g) :
    p.decodeFor readers asked = .error (.ofLibrary g) := by
  cases h with
  | uncaught htold hreadable hbytes hread h =>
      rw [htold.decodeFor_error hreadable hbytes hread, Encoding.readFailure,
        if_neg (mt LibraryError.isCaught_iff.mp h)]
  | broken hneeded h =>
      -- Detection asks for the bytes, and so does reading.
      rcases hneeded with rfl | ⟨e, htold, hreadable⟩
      · rw [RawPayload.decodeFor_eq, RawPayload.encodingFor, RawPayload.detect, h.toBytes]
        rfl
      · rw [htold.decodeFor, hreadable.bytesFor, h.toBytes]
        rfl

/-- Decoding comes to what its conditions say. -/
theorem DecodesTo.decodeFor {r : Except Failure Value} (h : DecodesTo readers p asked r) :
    p.decodeFor readers asked = r := by
  cases h with
  | untold h _ => exact h.decodeFor
  | malformed htold h _ => exact h.decodeFor htold
  | leaves h => exact h.decodeFor
  | data htold hreadable hbytes hread =>
      rw [htold.decodeFor_readable hreadable hbytes, hread]
      rfl

/-- One of the conditions holds. -/
theorem exists_decodesTo (readers : Readers) (p : RawPayload) (asked : Value) :
    ∃ r, DecodesTo readers p asked r := by
  rcases p.told_cases asked with ⟨e, htold⟩ | ⟨f, huntold⟩ | ⟨hasked, g, hbroken⟩
  · by_cases hreadable : p.Readable e
    · rcases p.standsFor_or_broken with ⟨bytes, hbytes⟩ | ⟨g, hbroken⟩
      · cases hread : readers e bytes with
        | ok v => exact ⟨_, .data htold hreadable hbytes hread⟩
        | error g =>
            by_cases hsays : g.SaysMalformed
            · exact ⟨_, .malformed htold (.read hreadable hbytes hread hsays rfl) rfl⟩
            · exact ⟨_, .leaves (.uncaught htold hreadable hbytes hread hsays)⟩
      · exact ⟨_, .leaves (.broken (Or.inr ⟨e, htold, hreadable⟩) hbroken)⟩
    · exact ⟨_, .malformed htold (.text hreadable) rfl⟩
  · exact ⟨_, .untold huntold huntold.encodingFor.2⟩
  · exact ⟨_, .leaves (.broken (Or.inl hasked) hbroken)⟩

/-- Decoding comes to an outcome exactly on its condition. -/
theorem decodeFor_eq_iff {r : Except Failure Value} :
    p.decodeFor readers asked = r ↔ DecodesTo readers p asked r := by
  refine ⟨?_, DecodesTo.decodeFor⟩
  rintro rfl
  rcases exists_decodesTo readers p asked with ⟨r, hr⟩
  exact hr.decodeFor ▸ hr

end

/-! ## The modelled readers -/

/-- The errors of reading a text of YAML that do not say that it is malformed, with what the
    text then has: a tag, a great many colons or the escape of a large number. -/
inductive Escapes (cs : List Char) : LibraryError → Prop
  | word (word : String) (h : '!' ∈ cs) : Escapes cs ⟨"KeyError", quoteText word⟩
  | number (h : '!' ∈ cs) : Escapes cs ⟨"IndexError", "string index out of range"⟩
  | time (h : '!' ∈ cs) :
    Escapes cs ⟨"AttributeError", "'NoneType' object has no attribute 'groupdict'"⟩
  | parts (h : '!' ∈ cs ∨ 174 ≤ cs.count ':') :
    Escapes cs ⟨"OverflowError", "int too large to convert to float"⟩
  | character (h : HasLargeEscape cs) :
    Escapes cs ⟨"OverflowError", "Python int too large to convert to C int"⟩

/-- Whether an error says so is a matter of its class. -/
theorem saysMalformed_of_named {name text : String}
    (h : malformedClasses.any (ExceptionClass.named name).isA = true) :
    LibraryError.SaysMalformed ⟨name, text⟩ :=
  LibraryError.isCaught_iff.mp h

/-- A fault that a text may have says that it is malformed, or escapes. -/
theorem YamlFault.MayArise.error {cs : List Char} {f : YamlFault} (h : f.MayArise cs) :
    f.error.SaysMalformed ∨ Escapes cs f.error := by
  cases f with
  | malformed => exact Or.inl (saysMalformed_of_named (by decide +kernel))
  | characterTooLarge => exact Or.inr (.character h)
  | unknownWord word => exact Or.inr (.word word h)
  | emptyNumber => exact Or.inr (.number h)
  | noTimestamp => exact Or.inr (.time h)
  | tooManyParts => exact Or.inr (.parts h)

theorem readYaml_error {bytes : Bytes} {f : LibraryError} (h : readYaml bytes = .error f) :
    f.SaysMalformed ∨
      ∃ cs, decodeYamlBytes? bytes = some cs ∧ Escapes cs f := by
  unfold readYaml at h
  split at h
  · rw [← Except.error.inj h]
    exact Or.inl (saysMalformed_of_named (by decide +kernel))
  next cs hcs =>
    -- The faults that may arise are known of all texts; which one it is decides the class.
    have hread := readYamlText_lands cs
    cases hfault : readYamlText cs with
    | ok v =>
        rw [hfault] at h
        exact absurd h nofun
    | error g =>
        rw [hfault] at h hread
        rw [← Except.error.inj h]
        exact (YamlFault.MayArise.error hread).imp_right fun hescapes => ⟨cs, hcs, hescapes⟩

theorem JsonFault.saysMalformed_error (cs : List Char) (f : JsonFault) :
    (f.error cs).SaysMalformed := by
  unfold JsonFault.error
  split
  · exact saysMalformed_of_named (by decide +kernel)
  · exact saysMalformed_of_named (by decide +kernel)

/-- Whatever keeps bytes from being JSON says that they are malformed. -/
theorem readJson_error {bytes : Bytes} {f : LibraryError} (h : readJson bytes = .error f) :
    f.SaysMalformed := by
  unfold readJson at h
  split at h
  · rw [← Except.error.inj h]
    exact saysMalformed_of_named (by decide +kernel)
  next cs _ =>
    cases hread : readJsonText cs with
    | ok v =>
        rw [hread] at h
        exact absurd h nofun
    | error g =>
        rw [hread] at h
        rw [← Except.error.inj h]
        exact g.saysMalformed_error cs

/-- A reader that has one error for all it refuses raises that one. -/
theorem eq_of_elim_error {found : Option Value} {own g : LibraryError}
    (h : found.elim (.error own) .ok = (.error g : Except LibraryError Value)) : own = g := by
  cases found with
  | some v => exact absurd h nofun
  | none => exact Except.error.inj h

/-- What a modelled reader raises and is not caught, YAML's has raised. -/
theorem load_uncaught {e : Encoding} {bytes : Bytes} {g : LibraryError}
    (hload : e.load bytes = .error g) (h : ¬ g.SaysMalformed) :
    e = .yaml ∧ ∃ cs, decodeYamlBytes? bytes = some cs ∧ Escapes cs g := by
  cases e with
  | json => exact absurd (readJson_error hload) h
  | yaml => exact ⟨rfl, (readYaml_error hload).resolve_left h⟩
  -- The binary readers raise errors of their own classes only.
  | cbor =>
      obtain rfl := eq_of_elim_error hload
      exact absurd (saysMalformed_of_named (by decide +kernel)) h
  | msgpack =>
      obtain rfl := eq_of_elim_error hload
      exact absurd (saysMalformed_of_named (by decide +kernel)) h

/-- In an encoding other than YAML, what a modelled reader refuses is malformed. -/
theorem decode_of_load_error {e : Encoding} {bytes : Bytes} {g : LibraryError} (he : e ≠ .yaml)
    (hload : e.load bytes = .error g) :
    ∃ cause, decode (.bytes bytes) (some e) = .error (.readerFailed e cause) := by
  have hsays : g.SaysMalformed :=
    Classical.not_not.mp fun h => he (load_uncaught hload h).1
  rw [decode_bytes, Encoding.read, hload]
  exact ⟨_, congrArg Except.error (if_pos (LibraryError.isCaught_iff.mpr hsays))⟩

/-- What decoding comes to, whatever is decoded, whatever encoding is asked for and whatever
    the readers do. Where the reader does with the bytes what the modelled one does, the only
    errors that leave are those that escape from YAML. -/
theorem decodeFor_answers (readers : Readers) (p : RawPayload) (asked : Value) :
    (∀ r, p.decodeFor readers asked = r ↔ DecodesTo readers p asked r) ∧
      ∀ e bytes, p.Told asked e → p.StandsFor bytes → readers e bytes = e.load bytes →
        ∀ g, Leaves readers p asked g →
          e = .yaml ∧ ∃ cs, decodeYamlBytes? bytes = some cs ∧ Escapes cs g := by
  refine ⟨fun r => decodeFor_eq_iff, fun e bytes htold hbytes hsame g hleaves => ?_⟩
  cases hleaves with
  | uncaught htold' _ hbytes' hread h =>
      obtain rfl := Except.ok.inj (htold.encodingFor.symm.trans htold'.encodingFor)
      obtain rfl := Except.ok.inj (hbytes.toBytes.symm.trans hbytes'.toBytes)
      exact load_uncaught (hsame.symm.trans hread) h
  -- A text without bytes does not get as far as a reader.
  | broken _ h => exact absurd (hbytes.toBytes.symm.trans h.toBytes) ok_ne_error

/-- The error of a reader that calls itself too often leaves. -/
example :
    (RawPayload.bytes []).decodeFor (fun _ _ => .error ⟨"RecursionError", "too deep"⟩)
      (.scalar (.text "json" (.encoding .json))) =
      .error (.ofLibrary ⟨"RecursionError", "too deep"⟩) := by rfl

/-- A text under a tag that it makes no sense of. -/
def doubtfulText : Payload := .text "!!bool maybe"

theorem readYamlText_doubtful :
    readYamlText "!!bool maybe".toList = .error (.unknownWord "maybe") := by
  have hfault : (match readYamlText "!!bool maybe".toList with
      | .ok _ => none
      | .error f => some f) = some (.unknownWord "maybe") := by decide +kernel
  cases hread : readYamlText "!!bool maybe".toList with
  | ok v =>
      rw [hread] at hfault
      exact absurd hfault nofun
  | error f =>
      rw [hread] at hfault
      rw [Option.some.inj hfault]

theorem keyError_text (word : String) :
    Failure.keyError (.text word) = .ofLibrary ⟨"KeyError", quoteText word⟩ := rfl

/-- The word is looked up among those for truth, and that it is missing there does not say
    that the text is malformed. -/
theorem doubtfulText_escapes :
    doubtfulText.raw.encodingFor (.text "yaml") = .ok .yaml ∧
      doubtfulText.raw.decodeFor Encoding.load (.text "yaml") =
        .error (.keyError (.text "maybe")) ∧
      (Failure.keyError (.text "maybe")).kind? = none := by
  have htold : doubtfulText.raw.Told (.text "yaml") .yaml := by
    have hname : Encoding.ofName? "yaml" = some .yaml := by decide +kernel
    refine .named ?_
    unfold Encoding.ofValue Value.text
    dsimp only
    rw [hname]
  have hbytes : doubtfulText.raw.StandsFor doubtfulText.toBytes := .text _
  have hchars : "!!bool maybe".toList = '!' :: "!bool maybe".toList := by decide +kernel
  have hread : readYaml doubtfulText.toBytes = .error ⟨"KeyError", quoteText "maybe"⟩ := by
    have htext : doubtfulText.toBytes = encodeUtf8 "!!bool maybe".toList := rfl
    -- The first character tells the reader that the bytes are UTF-8, so that one is set apart.
    unfold readYaml
    rw [htext, hchars, decodeYamlBytes_encodeUtf8 ⟨by decide, by decide⟩, ← hchars]
    dsimp only
    rw [readYamlText_doubtful]
    rfl
  have hclass : malformedClasses.any (ExceptionClass.named "KeyError").isA = false := by
    decide +kernel
  have hleaves : Leaves Encoding.load doubtfulText.raw (.text "yaml")
      ⟨"KeyError", quoteText "maybe"⟩ :=
    .uncaught htold (fun _ => rfl) hbytes hread
      (mt LibraryError.isCaught_iff.mpr (Bool.eq_false_iff.mp hclass))
  refine ⟨htold.encodingFor, ?_, rfl⟩
  rw [keyError_text]
  exact hleaves.decodeFor

end Docket
