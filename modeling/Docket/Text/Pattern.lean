import Docket.Number.Literal
import Docket.Text.Printable

/-!
# Patterns

Which texts are patterns, that is, regular expressions that can be compiled. The
grammar is read from left to right, and nothing is matched. What has to be known
of the parts is little: how many characters each group matches at least and at
most, since a pattern may look back only over a fixed number, and which groups
are closed, since only those can be referred to.

Spaces and comments do not count in a part of the pattern that is verbose. A
pattern can be made verbose at its very front or a group at a time.

Two questions are not looked into. A character may be told by its name, and every
name is taken for one; and a group's name may have characters beyond ASCII, which
are all taken for letters if they are printable.

## Main definitions

* `PatternWidth`: How many characters a part of a pattern matches.
* `PatternReader`: Reading a pattern from the front.
* `readAlternatives`: A pattern between brackets.
* `isPattern`: Whether a text is a pattern.
-/

namespace Docket

/-- A piece of a pattern: a character, or one with a backslash before it. -/
inductive PatternToken where
  | char (c : Char)
  | escaped (c : Char)
deriving DecidableEq

/-- The pieces of a pattern. A backslash at the end escapes nothing. -/
def patternTokens? : List Char → Option (List PatternToken)
  | [] => some []
  | ['\\'] => none
  | '\\' :: c :: rest => (patternTokens? rest).map (.escaped c :: ·)
  | c :: rest => (patternTokens? rest).map (.char c :: ·)

/-- How many characters a part of a pattern matches, at least and at most. -/
structure PatternWidth where
  least : Nat
  most : Nat
deriving DecidableEq

namespace PatternWidth

def zero : PatternWidth := ⟨0, 0⟩

def one : PatternWidth := ⟨1, 1⟩

/-- No width is told apart from larger ones beyond this. -/
def unlimited : Nat := 2 ^ 64

def capped (w : PatternWidth) : PatternWidth := ⟨min w.least unlimited, min w.most unlimited⟩

/-- One part after the other. -/
def append (v w : PatternWidth) : PatternWidth := ⟨v.least + w.least, v.most + w.most⟩

/-- One part or the other. -/
def or (v w : PatternWidth) : PatternWidth := ⟨min v.least w.least, max v.most w.most⟩

/-- A part again and again, as often as need be if there is no upper bound. -/
def times (w : PatternWidth) (least : Nat) : Option Nat → PatternWidth
  | some most => ⟨w.least * least, w.most * most⟩
  | none => ⟨w.least * least, if w.most = 0 then 0 else unlimited⟩

end PatternWidth

/-- What a repetition may stand after: a place between characters, a repetition,
    or something else. Only the last can be repeated. -/
inductive PatternItem where
  | position
  | repeated (w : PatternWidth)
  | other (w : PatternWidth)

def PatternItem.width : PatternItem → PatternWidth
  | position => .zero
  | repeated w => w
  | other w => w

/-- How far a pattern has been read. A group has a width once it is closed, and the
    pattern itself is group 0. Within a look back, `behind` groups were there
    before it. Flags are those of the whole pattern. -/
structure PatternState where
  left : List PatternToken
  groups : Array (Option PatternWidth)
  names : List (List Char × Nat)
  behind : Option Nat
  greatestCondition : Nat
  repeats : Bool
  flags : List Char

abbrev PatternReader := StateT PatternState Option

namespace PatternReader

def next : PatternReader PatternToken := do
  match (← get).left with
  | [] => failure
  | t :: rest => modifyGet fun s => (t, { s with left := rest })

/-- Goes past a character if it is the next one. -/
def accept (c : Char) : PatternReader Bool := do
  match (← get).left with
  | t :: rest =>
    if t = .char c then modifyGet fun s => (true, { s with left := rest }) else return false
  | [] => return false

def expect (c : Char) : PatternReader Unit := do
  if !(← accept c) then failure

/-- At most `n` characters of some kind. -/
def takeWhile (p : Char → Bool) : Nat → PatternReader (List Char)
  | 0 => return []
  | n + 1 => do
    match (← get).left with
    | .char c :: rest =>
      if p c then
        modify fun s => { s with left := rest }
        return c :: (← takeWhile p n)
      else return []
    | _ => return []

/-- The characters before one that ends them, and what follows that. -/
def splitAt? (stop : Char) : List PatternToken → Option (List Char × List PatternToken)
  | [] => none
  | .char c :: rest =>
    if c = stop then some ([], rest) else (splitAt? stop rest).map fun r => (c :: r.1, r.2)
  | .escaped c :: rest => (splitAt? stop rest).map fun r => ('\\' :: c :: r.1, r.2)

/-- A name and the character that ends it. -/
def nameBefore (stop : Char) : PatternReader (List Char) := do
  match splitAt? stop (← get).left with
  | some (c :: name, rest) => modifyGet fun s => (c :: name, { s with left := rest })
  | _ => failure

end PatternReader

open PatternReader

/-! ## Escapes and sets -/

def isOctalDigit (c : Char) : Bool := decide ('0' ≤ c) && decide (c ≤ '7')

/-- The number of an octal escape, which must be that of a byte. -/
def octalByte? (digits : List Char) : Option Nat := do
  let n ← readDigits? 8 digits
  if n ≤ 0o377 then some n else none

/-- What an escape stands for: a character, a class of characters, or a character
    by its name. -/
inductive PatternCode where
  | char (n : Nat)
  | category
  | named

/-- A character of as many digits to the base sixteen. -/
def hexCode (digits : Nat) : PatternReader PatternCode := do
  let ds ← takeWhile (fun c => (hexValue? c).isSome) digits
  match readDigits? 16 ds with
  | some n => if ds.length = digits ∧ n < 0x110000 then return .char n else failure
  | none => failure

/-- The escapes that mean the same in sets and outside, if `c` begins one. The bell
    and its like stand for themselves, which is all that has to be known. -/
def commonEscape? (c : Char) : Option (PatternReader PatternCode) :=
  match c with
  | 'x' => some (hexCode 2)
  | 'u' => some (hexCode 4)
  | 'U' => some (hexCode 8)
  | 'N' => some do
    expect '\x7b'
    let _ ← nameBefore '\x7d'
    return .named
  | _ =>
    if ['d', 'D', 's', 'S', 'w', 'W'].contains c then some (return .category)
    else
      match [('a', 7), ('f', 12), ('n', 10), ('r', 13), ('t', 9), ('v', 11)].lookup c with
      | some n => some (return .char n)
      | none => if c.isAlphanum then none else some (return .char c.toNat)

/-- What is meant by a piece of a set. -/
def setCode : PatternToken → PatternReader PatternCode
  | .char c => return .char c.toNat
  | .escaped c =>
    match commonEscape? c with
    | some code => code
    | none => do
      if c = 'b' then return .char 8
      else if isOctalDigit c then
        let more ← takeWhile isOctalDigit 2
        match octalByte? (c :: more) with
        | some n => return .char n
        | none => failure
      else failure

/-- Whether a range of characters may go from one to the other. -/
def rangeAllowed : PatternCode → PatternCode → Bool
  | .char m, .char n => m ≤ n
  | .category, _ => false
  | _, .category => false
  | _, _ => true

/-- The rest of a set. A closing bracket at its front is a character of it. -/
def readSet : Nat → Bool → PatternReader Unit
  | 0, _ => failure
  | fuel + 1, atFront => do
    let t ← next
    if t = .char ']' ∧ !atFront then return
    let low ← setCode t
    if ← accept '-' then
      let t ← next
      -- A line before the end stands for itself.
      if t = .char ']' then return
      if rangeAllowed low (← setCode t) then readSet fuel false else failure
    else readSet fuel false

/-! ## References and repetitions -/

/-- The group of a number, which must be closed. A look back cannot refer to what
    was opened within it. -/
def referTo (n : Nat) : PatternReader PatternItem := do
  let s ← get
  match s.groups[n]? with
  | some (some w) => if s.behind.all (n < ·) then return .other w else failure
  | _ => failure

/-- An escape that begins with a digit other than zero: a character if there are
    three octal digits, and else a reference with one digit or two. -/
def digitEscape (c : Char) : PatternReader PatternItem := do
  match ← takeWhile isAsciiDigit 1 with
  | [d] =>
    let third ← if isOctalDigit c && isOctalDigit d then takeWhile isOctalDigit 1 else pure []
    if third.isEmpty then referTo (digitsValue [c, d])
    else if (octalByte? (c :: d :: third)).isSome then return .other .one
    else failure
  | _ => referTo (digitsValue [c])

/-- What an escape stands for outside of sets. -/
def readEscape (c : Char) : PatternReader PatternItem := do
  match commonEscape? c with
  | some code =>
    let _ ← code
    return .other .one
  | none =>
    if ['A', 'b', 'B', 'Z'].contains c then return .position
    else if c = '0' then
      let _ ← takeWhile isOctalDigit 2
      return .other .one
    else if isAsciiDigit c then digitEscape c
    else failure

/-- No part is repeated as often as this. -/
def repetitionLimit : Nat := 2 ^ 32 - 1

/-- How often something is repeated, given the mark of a repetition. Without an end
    or a number the mark of a count is a character like any other. -/
def readBounds (mark : Char) : PatternReader (Option (Nat × Option Nat)) := do
  match mark with
  | '?' => return some (0, some 1)
  | '*' => return some (0, none)
  | '+' => return some (1, none)
  | _ => do
    let before ← get
    let number (ds : List Char) : PatternReader (Option Nat) :=
      if ds.isEmpty then return none
      else if digitsValue ds < repetitionLimit then return some (digitsValue ds)
      else failure
    let low ← takeWhile isAsciiDigit before.left.length
    let parted ← accept ','
    let high ← if parted then takeWhile isAsciiDigit before.left.length else pure low
    if (low.isEmpty && !parted) || !(← accept '\x7d') then
      set before
      return none
    else
      let least := (← number low).getD 0
      let most ← number high
      if most.all (least ≤ ·) then return some (least, most) else failure

/-- What stands last, repeated. A mark that makes the repetition greedy or not may
    follow. -/
def repeatItem (last : Option PatternItem) (bounds : Nat × Option Nat) :
    PatternReader PatternItem := do
  match last with
  | some (.other w) =>
    if !(← accept '?') then
      let _ ← accept '+'
    modify fun s => { s with repeats := true }
    return .repeated (w.times bounds.1 bounds.2)
  | _ => failure

/-! ## Groups -/

/-- Whether a text can name a group. -/
def isGroupName (name : List Char) : Bool :=
  let isLetter (c : Char) := c.isAlpha || c == '_' || (0x80 ≤ c.toNat && isPrintable c)
  match name with
  | [] => false
  | c :: rest => isLetter c && rest.all fun c => isLetter c || c.isDigit

/-- The flags that are set and those that are cleared. -/
abbrev PatternFlags := List Char × List Char

/-- Flags up to the first piece that is none. Characters are told apart by a table
    of Unicode or of ASCII, which a text cannot leave to the locale. -/
def takeFlags : PatternReader (List Char) := do
  takeWhile (['a', 'i', 'L', 'm', 's', 't', 'u', 'x'].contains ·) (← get).left.length

/-- The flags at the front of a group, or of the pattern if no group follows. -/
def readFlags : PatternReader (PatternFlags × Bool) := do
  let on ← takeFlags
  if on.contains 'L' || (on.contains 'a' && on.contains 'u') then failure
  if !on.isEmpty then
    if ← accept ')' then return ((on, []), true)
  if on.contains 't' then failure
  if !on.isEmpty then
    if ← accept ':' then return ((on, []), false)
  expect '-'
  let off ← takeFlags
  expect ':'
  if off.isEmpty || off.any (fun c => ['a', 'L', 't', 'u'].contains c || on.contains c) then
    failure
  return ((on, off), false)

/-- Whether a group is verbose, given its flags. -/
def PatternFlags.verbose (flags : PatternFlags) (before : Bool) : Bool :=
  (before || flags.1.contains 'x') && !flags.2.contains 'x'

/-- A group that can be referred to is opened, under a new name if it has one. -/
def openGroup (name : Option (List Char)) : PatternReader Nat := do
  let s ← get
  let id := s.groups.size
  match name with
  | none => set { s with groups := s.groups.push none }
  | some name =>
    if (s.names.lookup name).isSome || !isGroupName name then failure
    set { s with groups := s.groups.push none, names := (name, id) :: s.names }
  return id

def closeGroup (id : Nat) (w : PatternWidth) : PatternReader PatternItem := do
  modify fun s => { s with groups := s.groups.set! id (some w) }
  return .other w

/-- The group that a condition asks for, by name or number. The number may be that
    of a group further on, but not within a look back. -/
def readCondition : PatternReader Unit := do
  let name ← nameBefore ')'
  let id ← if isGroupName name then
      match (← get).names.lookup name with
      | some id => pure id
      | none => failure
    else
      match (dropUnderscores? name).bind (readInteger? 10) with
      | some n =>
        if 0 < n ∧ n < 2 ^ 30 - 1 then
          modify fun s => { s with greatestCondition := max s.greatestCondition n.toNat }
          pure n.toNat
        else failure
      | none => failure
  if (← get).behind.isSome then
    let _ ← referTo id

/-- Where a comment of a verbose pattern ends. -/
def dropComment : List PatternToken → List PatternToken
  | [] => []
  | t :: rest => if t = .char '\n' then rest else dropComment rest

mutual

/-- A pattern up to a closing bracket or the end. At the top, flags may stand at the
    very front. -/
def readAlternatives : Nat → (verbose top front : Bool) → PatternReader PatternWidth
  | 0, _, _, _ => failure
  | fuel + 1, verbose, top, front => do
    let w ← readSequence fuel verbose (top && front) .zero none
    if ← accept '|' then
      -- By now it is known whether the whole pattern is verbose.
      let flags := (← get).flags
      let verbose := if top then flags.contains 'x' else verbose
      return w.or (← readAlternatives fuel verbose top false)
    else return w

/-- One alternative, of which parts with the given width have been read before the
    last one. -/
def readSequence : Nat → (verbose front : Bool) → PatternWidth → Option PatternItem →
    PatternReader PatternWidth
  | 0, _, _, _, _ => failure
  | fuel + 1, verbose, front, done, last => do
    let whole := done.append ((last.map (·.width)).getD .zero)
    let goOn (item : PatternItem) := readSequence fuel verbose front whole (some item)
    match (← get).left with
    | [] => return whole.capped
    | t :: rest =>
      if t = .char '|' ∨ t = .char ')' then return whole.capped
      modify fun s => { s with left := rest }
      match t with
      | .escaped c => goOn (← readEscape c)
      | .char c =>
        if verbose && [' ', '\t', '\n', '\r', Char.ofNat 11, Char.ofNat 12].contains c then
          readSequence fuel verbose front done last
        else if verbose && c == '#' then
          modify fun s => { s with left := dropComment s.left }
          readSequence fuel verbose front done last
        else if c = '[' then
          let _ ← accept '^'
          readSet rest.length true
          goOn (.other .one)
        else if ['?', '*', '+', '\x7b'].contains c then
          match ← readBounds c with
          | none => goOn (.other .one)
          | some bounds =>
            readSequence fuel verbose front done (some (← repeatItem last bounds))
        else if c = '^' ∨ c = '$' then goOn .position
        else if c = '(' then
          match ← readGroup fuel verbose (front && last.isNone) with
          | some item => goOn item
          -- A comment is nothing, and flags for the whole pattern take effect at once.
          | none =>
            let verbose := verbose || (front && (← get).flags.contains 'x')
            readSequence fuel verbose front done last
        else goOn (.other .one)

/-- What follows an opening bracket: an item, or nothing that counts. -/
def readGroup : Nat → (verbose front : Bool) → PatternReader (Option PatternItem)
  | 0, _, _ => failure
  | fuel + 1, verbose, front => do
    let inside (verbose : Bool) : PatternReader PatternWidth := do
      let w ← readAlternatives fuel verbose false false
      expect ')'
      return w
    let captured (name : Option (List Char)) : PatternReader (Option PatternItem) := do
      let id ← openGroup name
      return some (← closeGroup id (← inside verbose))
    if !(← accept '?') then captured none
    else
      match (← get).left with
      | .char 'P' :: rest => do
        modify fun s => { s with left := rest }
        if ← accept '<' then captured (some (← nameBefore '>'))
        else
          expect '='
          match (← get).names.lookup (← nameBefore ')') with
          | some id => return some (← referTo id)
          | none => failure
      | .char ':' :: rest => do
        modify fun s => { s with left := rest }
        return some (.other (← inside verbose))
      | .char '>' :: rest => do
        modify fun s => { s with left := rest }
        return some (.other (← inside verbose))
      | .char '#' :: rest =>
        match splitAt? ')' rest with
        | some (_, rest) => modifyGet fun s => (none, { s with left := rest })
        | none => failure
      | .char '<' :: rest => do
        modify fun s => { s with left := rest }
        if !(← accept '=') then expect '!'
        let outer := (← get).behind
        modify fun s => { s with behind := some (outer.getD s.groups.size) }
        let w ← inside verbose
        modify fun s => { s with behind := outer }
        -- What is looked back over must be of one width.
        if w.least = w.most ∧ w.least < 2 ^ 32 then return some (.other .zero) else failure
      | .char '(' :: rest => do
        modify fun s => { s with left := rest }
        readCondition
        let yes ← readSequence fuel verbose false .zero none
        let no ← if ← accept '|' then readSequence fuel verbose false .zero none else pure .zero
        expect ')'
        return some (.other (yes.or no))
      | .char c :: rest =>
        if c = '=' ∨ c = '!' then do
          modify fun s => { s with left := rest }
          let _ ← inside verbose
          return some (.other .zero)
        else do
          let (flags, whole) ← readFlags
          if !whole then return some (.other (← inside (flags.verbose verbose)))
          else if front then
            modify fun s => { s with flags := flags.1 ++ s.flags }
            return none
          else failure
      | _ => failure

end

/-- Whether a text is a pattern. -/
def isPattern (cs : List Char) : Bool := Option.isSome do
  let tokens ← patternTokens? cs
  -- Each piece is gone past within a few calls, so the calls do not run out before the pieces.
  let (_, s) ← (readAlternatives (4 * tokens.length + 4) false true true).run
    { left := tokens, groups := #[none], names := [], behind := none, greatestCondition := 0,
      repeats := false, flags := [] }
  -- No bracket is left over, and there is every group that a condition asks for.
  if s.left.isEmpty && s.greatestCondition < s.groups.size &&
      !(s.flags.contains 'a' && s.flags.contains 'u') && !(s.flags.contains 't' && s.repeats) then
    some ()
  else none

end Docket
