import Docket.Proofs.Json.Leaves
import Docket.Proofs.Work

/-!
# JSON with more after it

The reader of JSON looks no further than the value that it reads, except that a
number needs something after it to be over. Within a collection there is always
something: the reader would not have gone on without a comma or a bracket. So the
condition on what follows is there for values only, and not for the inside of a
collection, and an object may be followed by anything (`JsonExtends.object`).

This is why an object is not read from part of its text. If it was, it would be read
from all of the text with something left, but nothing is.

## Main definitions

* `JsonExtends`: The reader reads the same with more after it, in so many steps.

## Theorems

* `jsonExtends`: The reader looks no further than it reads.
* `Reads.not_cut`: An object is not read from part of its text.
-/

namespace Docket

/-- What follows a value, before a comma or a bracket, does not go on with it. -/
theorem ends_of_skip {cs rest : List Char} {c : Char} (h : skipJsonBlanks cs = c :: rest)
    (hc : isAsciiDigit c = false ∧ c ≠ '.' ∧ c ≠ 'e' ∧ c ≠ 'E') : Ends cs := by
  have hsplit : cs.takeWhile isJsonBlank ++ c :: rest = cs := by
    rw [← h]
    exact List.takeWhile_append_dropWhile
  constructor
  · rintro rfl
    exact absurd h nofun
  · rw [← hsplit]
    exact stops_blanks (List.all_eq_true.mp List.all_takeWhile) (stops_cons rest hc)

/-- The reader with `n` steps looks no further than it reads, and with `m` steps it
    reads the same. What follows a value has to show that the value is over; what
    follows a collection may be anything. -/
structure JsonExtends (n m : Nat) : Prop where
  value : ∀ cs v rest more, readJsonValue n cs = .ok (v, rest) → Ends rest →
    readJsonValue m (cs ++ more) = .ok (v, rest ++ more)
  items : ∀ done cs v rest more, readJsonItems n done cs = .ok (v, rest) →
    readJsonItems m done (cs ++ more) = .ok (v, rest ++ more)
  members : ∀ done cs v rest more, readJsonMembers n done cs = .ok (v, rest) →
    readJsonMembers m done (cs ++ more) = .ok (v, rest ++ more)

theorem readJsonValue_nil {n : Nat} {r : Value × List Char} : readJsonValue n [] ≠ .ok r := by
  cases n with
  | zero => exact nofun
  | succ n => exact nofun

theorem readJsonItems_nil {n : Nat} {done : List Value} {r : Value × List Char} :
    readJsonItems n done [] ≠ .ok r := by
  cases n with
  | zero => exact nofun
  | succ n =>
      cases n with
      | zero => exact nofun
      | succ n => exact nofun

theorem readJsonMembers_nil {n : Nat} {done : List (String × Value)} {r : Value × List Char} :
    readJsonMembers n done [] ≠ .ok r := by
  cases n with
  | zero => exact nofun
  | succ n => exact nofun

/-- Blanks are skipped up to the same character, whatever follows. -/
theorem skipJsonBlanks_append_of_cons {cs tail : List Char} {c : Char}
    (h : skipJsonBlanks cs = c :: tail) (more : List Char) :
    skipJsonBlanks (cs ++ more) = c :: (tail ++ more) := by
  rw [skipJsonBlanks_append (by rw [h]; exact List.cons_ne_nil _ _), h, List.cons_append]

/-- Nothing is read where there are only blanks. -/
theorem skipJsonBlanks_append_of_ok {read : List Char → Except JsonFault (Value × List Char)}
    {cs : List Char} {r : Value × List Char} (h : read (skipJsonBlanks cs) = .ok r)
    (hnil : read [] ≠ .ok r) (more : List Char) :
    skipJsonBlanks (cs ++ more) = skipJsonBlanks cs ++ more := by
  refine skipJsonBlanks_append (fun hskip => hnil ?_) more
  rw [← hskip]
  exact h

/-- What follows an item of a list. -/
def readJsonItemsAfter (fuel : Nat) (done : List Value) (rest : List Char) :
    Except JsonFault (Value × List Char) :=
  match skipJsonBlanks rest with
  | ']' :: rest => .ok (.list done.reverse, rest)
  | ',' :: rest => readJsonItems fuel done (skipJsonBlanks rest)
  | rest => .error ⟨.comma, rest.length⟩

theorem readJsonItems_succ (fuel : Nat) (done : List Value) (cs : List Char) :
    readJsonItems (fuel + 1) done cs =
      (readJsonValue fuel cs).bind fun r => readJsonItemsAfter fuel (r.1 :: done) r.2 := by
  rw [readJsonItems]
  rfl

/-- What follows a member of an object. -/
def readJsonMembersAfter (fuel : Nat) (done : List (String × Value)) (rest : List Char) :
    Except JsonFault (Value × List Char) :=
  match skipJsonBlanks rest with
  | '\x7d' :: rest => .ok (.dict (done.map fun e => (.text e.1, e.2)), rest)
  | ',' :: rest => readJsonMembers fuel done (skipJsonBlanks rest)
  | rest => .error ⟨.comma, rest.length⟩

/-- What follows the name of a member. -/
def readJsonMembersColon (fuel : Nat) (done : List (String × Value)) (name rest : List Char) :
    Except JsonFault (Value × List Char) :=
  match skipJsonBlanks rest with
  | ':' :: rest =>
    (readJsonValue fuel (skipJsonBlanks rest)).bind fun r =>
      readJsonMembersAfter fuel (setMember done (String.ofList name) r.1) r.2
  | rest => .error ⟨.colon, rest.length⟩

theorem readJsonMembers_quote (fuel : Nat) (done : List (String × Value)) (cs : List Char) :
    readJsonMembers (fuel + 1) done ('"' :: cs) =
      (readJsonString (cs.length + 1) (cs.length + 2) [] cs).bind fun r =>
        readJsonMembersColon fuel done r.1 r.2 := by
  rw [readJsonMembers]
  rfl

theorem readJsonMembers_other {fuel : Nat} {done : List (String × Value)} {c : Char}
    {cs : List Char} (hc : c ≠ '"') :
    readJsonMembers (fuel + 1) done (c :: cs) = .error ⟨.propertyName, (c :: cs).length⟩ := by
  rw [readJsonMembers]
  exact fun _ heq => hc (List.cons.inj heq).1

/-- What follows the bracket of an object, and the blanks after it. -/
def readJsonObject (fuel : Nat) (cs : List Char) : Except JsonFault (Value × List Char) :=
  match cs with
  | '\x7d' :: rest => .ok (.dict [], rest)
  | cs => readJsonMembers fuel [] cs

theorem readJsonObject_cons (fuel : Nat) (cs : List Char) {c : Char} (hc : c ≠ '\x7d') :
    readJsonObject fuel (c :: cs) = readJsonMembers fuel [] (c :: cs) := by
  rw [readJsonObject]
  exact fun _ heq => hc (List.cons.inj heq).1

/-- What follows the bracket of an array, and the blanks after it. -/
def readJsonArray (fuel : Nat) (cs : List Char) : Except JsonFault (Value × List Char) :=
  match cs with
  | ']' :: rest => .ok (.list [], rest)
  | cs => readJsonItems fuel [] cs

theorem readJsonArray_cons (fuel : Nat) (cs : List Char) {c : Char} (hc : c ≠ ']') :
    readJsonArray fuel (c :: cs) = readJsonItems fuel [] (c :: cs) := by
  rw [readJsonArray]
  exact fun _ heq => hc (List.cons.inj heq).1

namespace JsonExtends

variable {n m : Nat}

theorem itemsAfter (h : JsonExtends n m) {done : List Value} {cs rest : List Char} {v : Value}
    (hread : readJsonItemsAfter n done cs = .ok (v, rest)) (more : List Char) :
    Ends cs ∧ readJsonItemsAfter m done (cs ++ more) = .ok (v, rest ++ more) := by
  unfold readJsonItemsAfter at hread
  split at hread
  -- The list is closed: what follows the bracket is left as it is.
  next tail hskip =>
    refine ⟨ends_of_skip hskip (by decide), ?_⟩
    cases hread
    rw [readJsonItemsAfter, skipJsonBlanks_append_of_cons hskip]
    rfl
  next tail hskip =>
    refine ⟨ends_of_skip hskip (by decide), ?_⟩
    rw [readJsonItemsAfter, skipJsonBlanks_append_of_cons hskip]
    -- Another item follows, read with the same steps.
    change readJsonItems m done (skipJsonBlanks (tail ++ more)) = _
    rw [skipJsonBlanks_append_of_ok hread readJsonItems_nil more]
    exact h.items done _ v rest more hread
  next => exact absurd hread nofun

theorem membersAfter (h : JsonExtends n m) {done : List (String × Value)} {cs rest : List Char}
    {v : Value} (hread : readJsonMembersAfter n done cs = .ok (v, rest)) (more : List Char) :
    Ends cs ∧ readJsonMembersAfter m done (cs ++ more) = .ok (v, rest ++ more) := by
  unfold readJsonMembersAfter at hread
  split at hread
  next tail hskip =>
    refine ⟨ends_of_skip hskip (by decide), ?_⟩
    cases hread
    rw [readJsonMembersAfter, skipJsonBlanks_append_of_cons hskip]
    rfl
  next tail hskip =>
    refine ⟨ends_of_skip hskip (by decide), ?_⟩
    rw [readJsonMembersAfter, skipJsonBlanks_append_of_cons hskip]
    change readJsonMembers m done (skipJsonBlanks (tail ++ more)) = _
    rw [skipJsonBlanks_append_of_ok hread readJsonMembers_nil more]
    exact h.members done _ v rest more hread
  next => exact absurd hread nofun

theorem membersColon (h : JsonExtends n m) {done : List (String × Value)} {name cs rest : List Char}
    {v : Value} (hread : readJsonMembersColon n done name cs = .ok (v, rest)) (more : List Char) :
    readJsonMembersColon m done name (cs ++ more) = .ok (v, rest ++ more) := by
  unfold readJsonMembersColon at hread
  split at hread
  next tail hskip =>
    rcases except_bind_eq_ok hread with ⟨⟨w, left⟩, hvalue, hafter⟩
    -- What stands behind the value ends it, so the value is read alike.
    rcases h.membersAfter hafter more with ⟨hends, hmore⟩
    rw [readJsonMembersColon, skipJsonBlanks_append_of_cons hskip]
    change (readJsonValue m (skipJsonBlanks (tail ++ more))).bind _ = _
    rw [skipJsonBlanks_append_of_ok hvalue readJsonValue_nil more,
      h.value _ w left more hvalue hends]
    exact hmore
  next => exact absurd hread nofun

/-- An object may be followed by anything. -/
theorem object (h : JsonExtends n m) {cs rest : List Char} {v : Value}
    (hread : readJsonValue (n + 1) ('\x7b' :: cs) = .ok (v, rest)) (more : List Char) :
    readJsonValue (m + 1) ('\x7b' :: cs ++ more) = .ok (v, rest ++ more) := by
  change readJsonObject n (skipJsonBlanks cs) = _ at hread
  change readJsonObject m (skipJsonBlanks (cs ++ more)) = _
  rw [skipJsonBlanks_append_of_ok hread readJsonMembers_nil more]
  cases hskip : skipJsonBlanks cs with
  -- The text does not end after the brace, or nothing would have been read.
  | nil =>
      rw [hskip] at hread
      exact absurd hread readJsonMembers_nil
  | cons c tail =>
      rw [hskip] at hread
      by_cases hc : c = '\x7d'
      · rw [hc] at hread ⊢
        cases hread
        rfl
      · rw [readJsonObject_cons _ _ hc] at hread
        rw [List.cons_append, readJsonObject_cons _ _ hc]
        exact h.members [] _ v rest more hread

theorem array (h : JsonExtends n m) {cs rest : List Char} {v : Value}
    (hread : readJsonValue (n + 1) ('[' :: cs) = .ok (v, rest)) (more : List Char) :
    readJsonValue (m + 1) ('[' :: cs ++ more) = .ok (v, rest ++ more) := by
  change readJsonArray n (skipJsonBlanks cs) = _ at hread
  change readJsonArray m (skipJsonBlanks (cs ++ more)) = _
  rw [skipJsonBlanks_append_of_ok hread readJsonItems_nil more]
  cases hskip : skipJsonBlanks cs with
  | nil =>
      rw [hskip] at hread
      exact absurd hread readJsonItems_nil
  | cons c tail =>
      rw [hskip] at hread
      by_cases hc : c = ']'
      · rw [hc] at hread ⊢
        cases hread
        rfl
      · rw [readJsonArray_cons _ _ hc] at hread
        rw [List.cons_append, readJsonArray_cons _ _ hc]
        exact h.items [] _ v rest more hread

end JsonExtends

/-- A string in quotes. -/
theorem readJsonValue_quote (fuel : Nat) (cs : List Char) :
    readJsonValue (fuel + 1) ('"' :: cs) =
      (readJsonString (cs.length + 1) (cs.length + 2) [] cs).bind fun r =>
        .ok (.text (String.ofList r.1), r.2) := by
  rw [readJsonValue]
  rfl

/-- What is read in quotes does not depend on what follows the second one. -/
theorem readJsonString_quoted {cs s rest : List Char}
    (h : readJsonString (cs.length + 1) (cs.length + 2) [] cs = .ok (s, rest)) (more : List Char) :
    readJsonString ((cs ++ more).length + 1) ((cs ++ more).length + 2) [] (cs ++ more) =
      .ok (s, rest ++ more) := by
  refine readJsonString_append ?_ h more
  rw [List.length_append]
  omega

theorem jsonExtends {n m : Nat} (h : n ≤ m) : JsonExtends n m := by
  induction n generalizing m with
  | zero =>
      refine ⟨?_, ?_, ?_⟩
      · intro cs v rest more hread
        cases hread
      · intro done cs v rest more hread
        cases hread
      · intro done cs v rest more hread
        cases hread
  | succ n ih =>
      cases m with
      | zero => exact absurd h (Nat.not_succ_le_zero n)
      | succ m =>
          have hless := ih (Nat.le_of_succ_le_succ h)
          refine ⟨?_, ?_, ?_⟩
          · intro cs v rest more hread hends
            cases cs with
            | nil => exact absurd hread readJsonValue_nil
            | cons c tail =>
                -- The first character tells a string, an array and an object from an atom.
                by_cases hquote : c = '"'
                · rw [hquote, readJsonValue_quote] at hread
                  rcases except_bind_eq_ok hread with ⟨⟨s, left⟩, hstring, hv⟩
                  cases hv
                  rw [hquote, List.cons_append, readJsonValue_quote,
                    readJsonString_quoted hstring more]
                  rfl
                by_cases hbracket : c = '['
                · rw [hbracket] at hread ⊢
                  exact hless.array hread more
                by_cases hbrace : c = '\x7b'
                · rw [hbrace] at hread ⊢
                  exact hless.object hread more
                -- Only an atom may be a numeral, so only here it counts that the value is over.
                have hatom : ∀ k t, readJsonValue (k + 1) (c :: t) = readJsonAtom (c :: t) := by
                  intro k t
                  rw [readJsonValue]
                  · exact fun _ heq => hquote (List.cons.inj heq).1
                  · exact fun _ heq => hbracket (List.cons.inj heq).1
                  · exact fun _ heq => hbrace (List.cons.inj heq).1
                rw [hatom] at hread
                rw [List.cons_append, hatom]
                exact readJsonAtom_append hread hends more
          · intro done cs v rest more hread
            -- A comma or a bracket follows the item, so the item is over.
            rw [readJsonItems_succ] at hread ⊢
            rcases except_bind_eq_ok hread with ⟨⟨w, left⟩, hvalue, hafter⟩
            rcases hless.itemsAfter hafter more with ⟨hends, hmore⟩
            rw [hless.value cs w left more hvalue hends]
            exact hmore
          · intro done cs v rest more hread
            cases cs with
            | nil => exact absurd hread readJsonMembers_nil
            | cons c tail =>
                by_cases hquote : c = '"'
                · rw [hquote, readJsonMembers_quote] at hread
                  rcases except_bind_eq_ok hread with ⟨⟨name, left⟩, hstring, hcolon⟩
                  rw [hquote, List.cons_append, readJsonMembers_quote,
                    readJsonString_quoted hstring more]
                  exact hless.membersColon hcolon more
                · rw [readJsonMembers_other hquote] at hread
                  cases hread

/-- An object is not read from part of its text. -/
theorem Reads.not_cut {front back : List Char} {v : Value} (h : Reads (front ++ back) v)
    (hopen : ∃ rest, front ++ back = '\x7b' :: rest) (hback : back ≠ []) (w : Value) :
    readJsonText front ≠ .ok w := by
  intro hread
  unfold readJsonText at hread
  rcases except_bind_eq_ok hread with ⟨⟨u, left⟩, hvalue, -⟩
  cases front with
  | nil => exact readJsonValue_nil hvalue
  | cons c tail =>
      rcases hopen with ⟨rest, hrest⟩
      rw [(List.cons.inj hrest).1] at hvalue h
      have hskip : skipJsonBlanks ('\x7b' :: tail) = '\x7b' :: tail := rfl
      rw [hskip] at hvalue
      have hfuel : 2 * ('\x7b' :: tail).length + 1 ≤ 2 * ('\x7b' :: tail ++ back).length + 1 := by
        rw [List.length_append]
        omega
      -- With what was cut off after it, the front would be read and that be left over.
      -- But the whole text is read to its end.
      have hmore := (jsonExtends hfuel).object hvalue back
      have hfull := h.reads (2 * ('\x7b' :: tail ++ back).length + 2) [] (by omega) stops_nil
      rw [List.append_nil, hmore] at hfull
      exact hback (List.append_eq_nil_iff.mp (Prod.mk.inj (Except.ok.inj hfull)).2).2

end Docket
