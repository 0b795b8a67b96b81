import Docket.Proofs.Json.Number
import Docket.Proofs.Json.Text

/-!
# Nested JSON

Data that is written is read back, at any depth and in both layouts. A text
`Reads` as a value if the reader takes it for that value whatever follows; lists and
mappings are read if their parts are, one rule for each of the two, by induction
along the parts.

Three things go along with the induction. What follows a part never goes on with
it, because it is a blank, a comma or a bracket. The blanks of the indented layout
stand before parts and closing brackets only, where the reader skips them. And the
reader counts its steps: a text of `n` characters takes at most `2 * n` of them, one
for a value and one for its place in a collection.

## Main definitions

* `Reads`: A text that is read as a value.
* `ReadsItems`, `ReadsMembers`: The same for the inside of a collection.

## Theorems

* `reads_number`, `reads_text`: Values without parts.
* `ReadsItems.reads`: A list is read if its inside is.
* `ReadsMembers.reads`: So is a mapping.
* `readsItems_jsonItems`, `readsMembers_jsonEntries`: The inside of a collection is
  read if its parts are.
-/

namespace Docket

/-- Begins like a value. -/
def Begins (cs : List Char) : Prop :=
  ∃ c rest, cs = c :: rest ∧ isJsonBlank c = false ∧ c ≠ ']'

/-- A text that is read as a value, whatever follows. -/
structure Reads (cs : List Char) (v : Value) : Prop where
  begins : Begins cs
  reads : ∀ fuel rest, 2 * cs.length ≤ fuel + 1 → Stops rest →
    readJsonValue fuel (cs ++ rest) = .ok (v, rest)

theorem Begins.length_pos {cs : List Char} (h : Begins cs) : 0 < cs.length := by
  rcases h with ⟨c, rest, rfl, -⟩
  exact Nat.succ_pos _

/-- A value without parts. -/
theorem reads_atom {c : Char} {cs : List Char} {v : Value} (hblank : isJsonBlank c = false)
    (hopen : c ≠ '"' ∧ c ≠ '[' ∧ c ≠ '\x7b' ∧ c ≠ ']')
    (h : ∀ rest, Stops rest → readJsonAtom (c :: cs ++ rest) = .ok (v, rest)) :
    Reads (c :: cs) v where
  begins := ⟨c, cs, rfl, hblank, hopen.2.2.2⟩
  reads := by
    intro fuel rest hfuel hrest
    cases fuel with
    | zero =>
        rw [List.length_cons] at hfuel
        omega
    | succ fuel =>
        rw [← h rest hrest, List.cons_append, readJsonValue]
        · exact fun _ heq => hopen.1 (List.cons.inj heq).1
        · exact fun _ heq => hopen.2.1 (List.cons.inj heq).1
        · exact fun _ heq => hopen.2.2.1 (List.cons.inj heq).1

/-- A constant is no start of a numeral. -/
theorem readJsonAtom_signOf (negative : Bool) {d : Char} (body : List Char)
    (hd : isAsciiDigit d = true) :
    readJsonAtom (signOf negative ++ d :: body) =
      readJsonNumber (signOf negative ++ d :: body) := by
  have hword : ∀ entry ∈ jsonConstants,
      2 ≤ entry.1.toList.length ∧ entry.1.toList.all (isAsciiDigit · == false) = true := by
    decide
  have hnone : ∀ entry ∈ jsonConstants,
      afterWord? entry.1 (signOf negative ++ d :: body) = none := by
    intro entry hentry
    rcases hword entry hentry with ⟨hlen, hletters⟩
    refine if_neg fun hstart => ?_
    -- The digit is the first or the second character, so it would be a letter.
    rcases List.isPrefixOf_iff_prefix.mp hstart with ⟨t, ht⟩
    have hsign : (signOf negative).length < entry.1.toList.length := by
      cases negative with
      | true => exact hlen
      | false => exact Nat.lt_of_lt_of_le Nat.zero_lt_two hlen
    have hget : (signOf negative ++ d :: body)[(signOf negative).length]? = some d := by
      rw [List.getElem?_append_right (Nat.le_refl _), Nat.sub_self]
      rfl
    rw [← ht, List.getElem?_append_left hsign] at hget
    rw [beq_iff_eq.mp (List.all_eq_true.mp hletters d (List.mem_of_getElem? hget))] at hd
    exact Bool.false_ne_true hd
  unfold readJsonAtom
  have hfind : (jsonConstants.findSome? fun c =>
      (afterWord? c.1 (signOf negative ++ d :: body)).map (c.2, ·)) = none := by
    rw [List.findSome?_eq_none_iff]
    intro entry hentry
    rw [hnone entry hentry]
    rfl
  rw [hfind]

theorem isAsciiDigit_of_letter {d : Char} (hd : isAsciiDigit d = true) :
    isJsonBlank d = false ∧ d ≠ '"' ∧ d ≠ '[' ∧ d ≠ '\x7b' ∧ d ≠ ']' := by
  have hne : ∀ c, isAsciiDigit c = false → d ≠ c := by
    rintro c hc rfl
    rw [hc] at hd
    exact Bool.false_ne_true hd
  refine ⟨?_, hne _ rfl, hne _ rfl, hne _ rfl, hne _ rfl⟩
  unfold isJsonBlank
  rw [beq_eq_false_iff_ne.mpr (hne ' ' rfl), beq_eq_false_iff_ne.mpr (hne '\t' rfl),
    beq_eq_false_iff_ne.mpr (hne '\n' rfl), beq_eq_false_iff_ne.mpr (hne '\r' rfl)]
  rfl

/-- A numeral is read as the number it is. -/
theorem reads_number {negative : Bool} {d : Char} {body : List Char} {v : Value}
    (hd : isAsciiDigit d = true)
    (h : ∀ rest, Stops rest →
      readJsonNumber (signOf negative ++ d :: body ++ rest) = .ok (v, rest)) :
    Reads (signOf negative ++ d :: body) v := by
  have hatom : ∀ rest, Stops rest →
      readJsonAtom (signOf negative ++ d :: body ++ rest) = .ok (v, rest) := by
    intro rest hrest
    rw [← h rest hrest, List.append_assoc, List.cons_append]
    exact readJsonAtom_signOf negative _ hd
  rcases isAsciiDigit_of_letter hd with ⟨hblank, hopen⟩
  cases negative with
  | true => exact reads_atom rfl (by decide) hatom
  | false => exact reads_atom hblank hopen hatom

theorem reads_null : Reads "null".toList .null :=
  reads_atom rfl (by decide) fun _ _ => rfl

theorem reads_bool (b : Bool) : Reads (jsonBool b) (.bool b) := by
  cases b with
  | true => exact reads_atom rfl (by decide) fun _ _ => rfl
  | false => exact reads_atom rfl (by decide) fun _ _ => rfl

theorem reads_int {n : Int} {cs : List Char} (h : jsonInt n = .ok cs) : Reads cs (.int n) := by
  have hread : ∀ rest, Stops rest → readJsonNumber (cs ++ rest) = .ok (.int n, rest) :=
    fun _ => readJsonNumber_int h
  rcases jsonInt_eq h with ⟨-, rfl⟩
  rcases hdigits : (toString n.natAbs).toList with _ | ⟨d, ds⟩
  · exact absurd hdigits (toString_ne_nil _)
  · rw [hdigits] at hread
    exact reads_number (isAsciiDigit_of_mem_toString (hdigits ▸ List.mem_cons_self)) hread

theorem reads_float {x : Binary64} {cs : List Char} (h : jsonFloat x = .ok cs) :
    Reads cs (.float x) := by
  have hread : ∀ rest, Stops rest → readJsonNumber (cs ++ rest) = .ok (.float x, rest) :=
    fun _ => readJsonNumber_float h
  rcases jsonFloat_eq h with ⟨-, rfl⟩
  rcases (spells_writeDecimal x.shortest).begins with ⟨d, body, hbody, hd⟩
  rw [hbody] at hread ⊢
  exact reads_number hd hread

theorem reads_text (s : String) : Reads (jsonString s) (.text s) where
  begins := ⟨'"', _, rfl, rfl, by decide⟩
  reads := by
    intro fuel rest hfuel hrest
    rcases readJsonString_jsonString s rest with ⟨body, htext, hread⟩
    cases fuel with
    | zero =>
        unfold jsonString at hfuel
        rw [List.cons_append, List.length_cons] at hfuel
        omega
    | succ fuel =>
        rw [htext] at hread ⊢
        rw [readJsonValue, hread]
        exact congrArg (fun t => Except.ok (Value.text t, rest)) String.ofList_toList

/-- Blanks alone, as the indented layout puts them between parts. -/
def Blanks (cs : List Char) : Prop := ∀ c ∈ cs, isJsonBlank c = true

theorem blanks_newline (layout : JsonLayout) (level : Nat) : Blanks (layout.newline level) := by
  intro c hc
  cases layout with
  | compact => exact absurd hc List.not_mem_nil
  | indented =>
      rcases List.mem_cons.mp hc with rfl | hc
      · rfl
      · rw [List.eq_of_mem_replicate hc]
        rfl

/-- A colon, and perhaps a blank. -/
theorem colon_eq (layout : JsonLayout) :
    ∃ blanks, layout.colon = ':' :: blanks ∧ Blanks blanks := by
  cases layout with
  | compact => exact ⟨[], rfl, fun c hc => absurd hc List.not_mem_nil⟩
  | indented =>
      refine ⟨[' '], rfl, fun c hc => ?_⟩
      rw [List.mem_singleton.mp hc]
      rfl

theorem skipJsonBlanks_cons {c : Char} (rest : List Char) (hc : isJsonBlank c = false) :
    skipJsonBlanks (c :: rest) = c :: rest :=
  List.dropWhile_cons_of_neg fun h => absurd (hc.symm.trans h) Bool.false_ne_true

/-- Blanks are skipped, and nothing else. -/
theorem skipJsonBlanks_blanks {blanks rest : List Char} {c : Char} (h : Blanks blanks)
    (hc : isJsonBlank c = false) : skipJsonBlanks (blanks ++ c :: rest) = c :: rest := by
  rw [skipJsonBlanks, List.dropWhile_append_of_pos h]
  exact skipJsonBlanks_cons rest hc

theorem Begins.skip {cs blanks : List Char} (h : Begins cs) (hblanks : Blanks blanks)
    (rest : List Char) : skipJsonBlanks (blanks ++ (cs ++ rest)) = cs ++ rest := by
  rcases h with ⟨c, t, rfl, hc, -⟩
  exact skipJsonBlanks_blanks hblanks hc

theorem stops_cons {c : Char} (rest : List Char)
    (h : isAsciiDigit c = false ∧ c ≠ '.' ∧ c ≠ 'e' ∧ c ≠ 'E') : Stops (c :: rest) := by
  intro d hd
  rw [← Option.some.inj hd]
  exact h

/-- Blanks stop a numeral as well. -/
theorem stops_blanks {blanks rest : List Char} (h : Blanks blanks) (hrest : Stops rest) :
    Stops (blanks ++ rest) := by
  cases blanks with
  | nil => exact hrest
  | cons c t =>
      have hc := h c List.mem_cons_self
      -- A blank is no digit, point or letter of an exponent.
      have hne : ∀ d, isJsonBlank d = false → c ≠ d := by
        rintro d hd rfl
        rw [hd] at hc
        exact Bool.false_ne_true hc
      refine stops_cons (t ++ rest) ⟨?_, hne _ rfl, hne _ rfl, hne _ rfl⟩
      rw [← Bool.not_eq_true]
      intro hdigit
      rw [(isAsciiDigit_of_letter hdigit).1] at hc
      exact Bool.false_ne_true hc

/-- The reader at the last item. -/
theorem readJsonItems_last {fuel : Nat} {done : List Value} {cs rest rest' : List Char} {v : Value}
    (h : readJsonValue fuel cs = .ok (v, rest)) (hskip : skipJsonBlanks rest = ']' :: rest') :
    readJsonItems (fuel + 1) done cs = .ok (.list (v :: done).reverse, rest') := by
  rw [readJsonItems, h]
  dsimp only [bind, Except.bind]
  rw [hskip]
  rfl

/-- The reader at an item that is not the last. -/
theorem readJsonItems_comma {fuel : Nat} {done : List Value} {cs rest : List Char} {v : Value}
    (h : readJsonValue fuel cs = .ok (v, ',' :: rest)) :
    readJsonItems (fuel + 1) done cs = readJsonItems fuel (v :: done) (skipJsonBlanks rest) := by
  rw [readJsonItems, h]
  rfl

/-- A text that is read as the items of a list that are left, up to its bracket. -/
structure ReadsItems (text : List Char) (vs : List Value) : Prop where
  begins : Begins text
  reads : ∀ fuel done blanks rest, 2 * text.length ≤ fuel → Blanks blanks →
    readJsonItems fuel done (text ++ (blanks ++ ']' :: rest)) =
      .ok (.list (done.reverse ++ vs), rest)

theorem ReadsItems.one {cs : List Char} {v : Value} (h : Reads cs v) : ReadsItems cs [v] where
  begins := h.begins
  reads := by
    intro fuel done blanks rest hfuel hblanks
    have hpos := h.begins.length_pos
    cases fuel with
    | zero => omega
    | succ fuel =>
        have hstops : Stops (blanks ++ ']' :: rest) :=
          stops_blanks hblanks (stops_cons rest (by decide))
        rw [readJsonItems_last (h.reads fuel _ hfuel hstops) (skipJsonBlanks_blanks hblanks rfl),
          List.reverse_cons]

theorem ReadsItems.cons {cs text blanks : List Char} {v : Value} {vs : List Value}
    (h : Reads cs v) (hblanks : Blanks blanks) (hrest : ReadsItems text vs) :
    ReadsItems (cs ++ ',' :: (blanks ++ text)) (v :: vs) where
  begins := by
    rcases h.begins with ⟨c, t, rfl, hc⟩
    exact ⟨c, _, rfl, hc⟩
  reads := by
    intro fuel done blanks' rest hfuel hblanks'
    rw [List.length_append, List.length_cons, List.length_append] at hfuel
    have hpos := h.begins.length_pos
    cases fuel with
    | zero => omega
    | succ fuel =>
        -- The comma ends the item.
        have hstops := stops_cons (blanks ++ text ++ (blanks' ++ ']' :: rest))
          (c := ',') (by decide)
        rw [List.append_assoc, List.cons_append, readJsonItems_comma
          (h.reads fuel _ (by omega) hstops), List.append_assoc, hrest.begins.skip hblanks,
          hrest.reads fuel (v :: done) blanks' rest (by omega) hblanks', List.reverse_cons,
          List.append_assoc, List.singleton_append]

/-- A list is read if its inside is. -/
theorem ReadsItems.reads_list {text blanks blanks' : List Char} {vs : List Value}
    (h : ReadsItems text vs) (hblanks : Blanks blanks) (hblanks' : Blanks blanks') :
    Reads ('[' :: (blanks ++ text) ++ blanks' ++ [']']) (.list vs) where
  begins := ⟨'[', _, rfl, rfl, by decide⟩
  reads := by
    intro fuel rest hfuel hrest
    simp only [List.length_append, List.length_cons, List.length_nil] at hfuel
    cases fuel with
    | zero => omega
    | succ fuel =>
        rcases h.begins with ⟨c, t, htext, hc, hclose⟩
        have happend : '[' :: (blanks ++ text) ++ blanks' ++ [']'] ++ rest =
            '[' :: (blanks ++ (text ++ (blanks' ++ ']' :: rest))) := by
          simp only [List.cons_append, List.append_assoc, List.nil_append]
        have hskip := h.begins.skip hblanks (blanks' ++ ']' :: rest)
        have hread := h.reads fuel [] blanks' rest (by omega) hblanks'
        rw [happend, readJsonValue, hskip]
        rw [htext, List.cons_append] at hread ⊢
        -- The first item does not begin with the bracket that closes the list.
        split
        next heq => exact absurd (List.cons.inj heq).1 hclose
        next => exact hread

theorem reads_list_nil : Reads ['[', ']'] (.list []) where
  begins := ⟨'[', _, rfl, rfl, by decide⟩
  reads := by
    intro fuel rest hfuel _
    cases fuel with
    | zero => exact absurd hfuel (by decide)
    | succ fuel => rfl

/-- The reader at a member, up to what follows its value. -/
theorem readJsonMembers_value {fuel : Nat} {done : List (String × Value)} {name : String}
    {blanks cs rest : List Char} {v : Value} (hblanks : Blanks blanks) (h : Reads cs v)
    (hfuel : 2 * cs.length ≤ fuel + 1) (hrest : Stops rest) :
    readJsonMembers (fuel + 1) done (jsonString name ++ ':' :: (blanks ++ (cs ++ rest))) =
      (match skipJsonBlanks rest with
        | '\x7d' :: rest =>
          .ok (.dict ((setMember done name v).map fun e => (.text e.1, e.2)), rest)
        | ',' :: rest => readJsonMembers fuel (setMember done name v) (skipJsonBlanks rest)
        | rest => .error ⟨.comma, rest.length⟩) := by
  rcases readJsonString_jsonString name (':' :: (blanks ++ (cs ++ rest))) with ⟨body, htext, hread⟩
  have hcolon : skipJsonBlanks (':' :: (blanks ++ (cs ++ rest))) =
      ':' :: (blanks ++ (cs ++ rest)) :=
    skipJsonBlanks_cons _ rfl
  have hvalue := h.reads fuel rest hfuel hrest
  rw [htext] at hread ⊢
  rw [readJsonMembers, hread]
  simp only [bind, Except.bind]
  rw [hcolon]
  simp only []
  rw [h.begins.skip hblanks, hvalue, String.ofList_toList]
  rfl

/-- A name that is not there yet goes to the end. -/
theorem setMember_of_not_mem {done : List (String × Value)} {name : String} (v : Value)
    (h : name ∉ done.map Prod.fst) : setMember done name v = done ++ [(name, v)] := by
  induction done with
  | nil => rfl
  | cons e rest ih =>
      rw [List.map_cons, List.mem_cons, not_or] at h
      rw [setMember, beq_eq_false_iff_ne.mpr fun heq => h.1 heq.symm, if_neg Bool.false_ne_true,
        ih h.2]
      rfl

/-- A text that is read as the members of a mapping that are left, up to its
    bracket, none of which has been there before. -/
structure ReadsMembers (text : List Char) (ms : List (String × Value)) : Prop where
  begins : ∃ rest, text = '"' :: rest
  reads : ∀ fuel done blanks rest, 2 * text.length ≤ fuel → Blanks blanks →
    (∀ n ∈ done.map Prod.fst, n ∉ ms.map Prod.fst) →
      readJsonMembers fuel done (text ++ (blanks ++ '\x7d' :: rest)) =
        .ok (.dict ((done ++ ms).map fun e => (.text e.1, e.2)), rest)

theorem ReadsMembers.one {blanks cs : List Char} {v : Value} (name : String)
    (hblanks : Blanks blanks) (h : Reads cs v) :
    ReadsMembers (jsonString name ++ ':' :: (blanks ++ cs)) [(name, v)] where
  begins := ⟨_, rfl⟩
  reads := by
    intro fuel done blanks' rest hfuel hblanks' hdone
    rw [List.length_append, List.length_cons, List.length_append] at hfuel
    -- A name that was not read before is put at the end.
    have hnew : name ∉ done.map Prod.fst := fun hmem => hdone name hmem List.mem_cons_self
    cases fuel with
    | zero => omega
    | succ fuel =>
        have hstops : Stops (blanks' ++ '\x7d' :: rest) :=
          stops_blanks hblanks' (stops_cons rest (by decide))
        rw [List.append_assoc, List.cons_append, List.append_assoc,
          readJsonMembers_value hblanks h (by omega) hstops, skipJsonBlanks_blanks hblanks' rfl,
          setMember_of_not_mem v hnew]
        rfl

theorem ReadsMembers.cons {blanks blanks' cs text : List Char} {v : Value}
    {ms : List (String × Value)} {name : String} (hblanks : Blanks blanks) (h : Reads cs v)
    (hblanks' : Blanks blanks') (hrest : ReadsMembers text ms) (hname : name ∉ ms.map Prod.fst) :
    ReadsMembers (jsonString name ++ ':' :: (blanks ++ cs) ++ ',' :: (blanks' ++ text))
      ((name, v) :: ms) where
  begins := ⟨_, rfl⟩
  reads := by
    intro fuel done blanks'' rest hfuel hblanks'' hdone
    simp only [List.length_append, List.length_cons] at hfuel
    have hnew : name ∉ done.map Prod.fst := fun hmem => hdone name hmem List.mem_cons_self
    cases fuel with
    | zero => omega
    | succ fuel =>
        rcases hrest.begins with ⟨t, ht⟩
        have hskip : skipJsonBlanks (blanks' ++ (text ++ (blanks'' ++ '\x7d' :: rest))) =
            text ++ (blanks'' ++ '\x7d' :: rest) := by
          rw [ht]
          exact skipJsonBlanks_blanks hblanks' rfl
        have hstops : Stops (',' :: (blanks' ++ (text ++ (blanks'' ++ '\x7d' :: rest)))) :=
          stops_cons _ (by decide)
        have hcomma : skipJsonBlanks (',' :: (blanks' ++ (text ++ (blanks'' ++ '\x7d' :: rest)))) =
            ',' :: (blanks' ++ (text ++ (blanks'' ++ '\x7d' :: rest))) :=
          skipJsonBlanks_cons _ rfl
        simp only [List.append_assoc, List.cons_append]
        rw [readJsonMembers_value hblanks h (by omega) hstops, hcomma]
        simp only []
        rw [hskip, setMember_of_not_mem v hnew,
          hrest.reads fuel _ blanks'' rest (by omega) hblanks'', List.append_assoc,
          List.singleton_append]
        -- The names in hand are those from before and this one, none of which is to come.
        intro n hn
        rw [List.map_append, List.mem_append, List.map_singleton, List.mem_singleton] at hn
        rcases hn with hn | rfl
        · exact fun hmem => hdone n hn (List.mem_cons_of_mem _ hmem)
        · exact hname

/-- A mapping is read if its inside is. -/
theorem ReadsMembers.reads_map {text blanks blanks' : List Char} {ms : List (String × Value)}
    (h : ReadsMembers text ms) (hblanks : Blanks blanks) (hblanks' : Blanks blanks') :
    Reads ('\x7b' :: (blanks ++ text) ++ blanks' ++ ['\x7d'])
      (.dict (ms.map fun e => (.text e.1, e.2))) where
  begins := ⟨'\x7b', _, rfl, rfl, by decide⟩
  reads := by
    intro fuel rest hfuel hrest
    simp only [List.length_append, List.length_cons, List.length_nil] at hfuel
    cases fuel with
    | zero => omega
    | succ fuel =>
        rcases h.begins with ⟨t, ht⟩
        have happend : '\x7b' :: (blanks ++ text) ++ blanks' ++ ['\x7d'] ++ rest =
            '\x7b' :: (blanks ++ (text ++ (blanks' ++ '\x7d' :: rest))) := by
          simp only [List.cons_append, List.append_assoc, List.nil_append]
        have hskip : skipJsonBlanks (blanks ++ (text ++ (blanks' ++ '\x7d' :: rest))) =
            text ++ (blanks' ++ '\x7d' :: rest) := by
          rw [ht]
          exact skipJsonBlanks_blanks hblanks rfl
        have hread := h.reads fuel [] blanks' rest (by omega) hblanks'
          fun n hn => absurd hn List.not_mem_nil
        rw [happend, readJsonValue, hskip]
        rw [ht, List.cons_append] at hread ⊢
        exact hread

theorem reads_map_nil : Reads ['\x7b', '\x7d'] (.dict []) where
  begins := ⟨'\x7b', _, rfl, rfl, by decide⟩
  reads := by
    intro fuel rest hfuel _
    cases fuel with
    | zero => exact absurd hfuel (by decide)
    | succ fuel => rfl

end Docket
