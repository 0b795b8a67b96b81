import Docket.Document
import Docket.Proofs.Recording.Runs

/-!
# Failures that leave bodies

A failure that no body catches leaves every body that is being run, from the
innermost one outwards. It is wrapped at most once on this way, and at the
innermost body: what the wrapping makes of it is a failure that this library
reports, and those pass through every other body as they are.

To say which body was the innermost one, the evaluation has to be followed from the
outside in. A statement *enters* a body if it comes to run the body at a place where
nothing catches what the body fails with; what was done before must have succeeded.
A failure is *raised* in a body if the statements of the body fail with it and no body
that they enter fails, or if it is raised in a body that they enter (`Raises`). Since
evaluation goes one way only, there is one body that a failure is raised in, and one
failure that is raised there (`Raises.unique`).

A body that is entered may fail for any reason: arguments that do not fit, a generator
that fails while it is drawn from, a name that is read back and is not there, an
assignment to a block further out. None of these is looked at here.

## Main definitions

* `Entry`: A body that is about to be run.
* `Node.Enters`, `Stmt.Enters`, `BodyEnters`: What comes to run a body.
* `Raises`: The failure that is raised, and the innermost body then.
* `PassedOn`: A failure leaves whatever comes to run the body.
* `WrappedOnce`: What leaves a body, given what was raised and where.

## Theorems

* `Failure.inBody_inBody`: What was wrapped is not wrapped again.
* `Along.fails`, `Along.meet`: Sequences that enter a body that fails.
* `Stmt.Enters.fails`: A statement fails with what a body fails with that it enters.
* `Raises.fails`, `exists_raises`: Bodies fail with what is raised in them, wrapped.
* `Entry.Fails.passedOn`: A body that fails makes all fail that comes to run it.
* `failure_wrapped_once`: Failures are wrapped once, at the innermost body.
-/

namespace Docket

namespace Failure

/-- A failure is wrapped if it is an ordinary error that this library does not
    report. -/
def isWrapped (e : Failure) : Bool := !e.isReported && e.isOrdinary

theorem inBody_of_wrapped {e : Failure} (h : e.isWrapped = true) (body : Body) :
    e.inBody body = .bodyFailed body.display e := by
  simp only [isWrapped, Bool.and_eq_true, Bool.not_eq_true'] at h
  simp [inBody, h.1, h.2]

theorem inBody_of_not_wrapped {e : Failure} (h : e.isWrapped = false) (body : Body) :
    e.inBody body = e := by
  have hpass : (e.isReported || !e.isOrdinary) = true := by
    revert h
    simp only [isWrapped]
    cases e.isReported <;> cases e.isOrdinary <;> decide
  simp [inBody, hpass]

/-- What leaves a body is no more wrapped. -/
theorem isWrapped_inBody (e : Failure) (body : Body) : (e.inBody body).isWrapped = false := by
  cases h : e.isWrapped with
  | true => rw [inBody_of_wrapped h]; rfl
  | false => rw [inBody_of_not_wrapped h, h]

/-- What was wrapped is not wrapped again. -/
theorem inBody_inBody (e : Failure) (inner outer : Body) :
    (e.inBody inner).inBody outer = e.inBody inner :=
  inBody_of_not_wrapped (isWrapped_inBody e inner) outer

end Failure

/-! ## Entering bodies -/

/-- A body that is about to be run: the blocks being recorded around it, and the
    session. -/
structure Entry where
  stack : BlockStack
  body : Body
  session : Session

/-- Running the body fails. -/
def Entry.Fails (run : BodyRunner) (c : Entry) (e : Failure) (s' : Session) : Prop :=
  Yields (run c.stack c.body) c.session (.error e) s'

/-- Of work done on one thing after another, all succeeds up to one of which something
    holds. -/
def Along {α : Type} (work : α → Run Unit) (E : α → Session → Prop) : List α → Session → Prop
  | [], _ => False
  | a :: rest, s => E a s ∨ ∃ t, Yields (work a) s (.ok ()) t ∧ Along work E rest t

mutual

/-- Resolving a node comes to running a body. -/
def Node.Enters (run : BodyRunner) (stack : BlockStack) : Node → Session → Entry → Prop
  | .nested b, s, c => c = ⟨stack, b, s⟩
  | .seq items, s, c => itemsEnter run stack items s c
  | .mapping entries, s, c => entriesEnter run stack entries s c
  | .scalar .., _, _ => False
  | .raw _, _, _ => False

def itemsEnter (run : BodyRunner) (stack : BlockStack) : List Node → Session → Entry → Prop
  | [], _, _ => False
  | n :: rest, s, c => n.Enters run stack s c ∨
      ∃ v t, Yields (n.resolve (run stack)) s (.ok v) t ∧ itemsEnter run stack rest t c

def entriesEnter (run : BodyRunner) (stack : BlockStack) :
    List (Name × Node) → Session → Entry → Prop
  | [], _, _ => False
  | (_, n) :: rest, s, c => n.Enters run stack s c ∨
      ∃ v t, Yields (n.resolve (run stack)) s (.ok v) t ∧ entriesEnter run stack rest t c

end

/-- What is about to be assigned: a value, to a field of a block. -/
structure Assignment where
  id : Nat
  name : Name
  value : Value

namespace Assignment

def perform (run : BodyRunner) (stack : BlockStack) (a : Assignment) : Run Unit :=
  assignField run stack a.id a.name a.value

/-- Assigning comes to running a body: the value has been classified by then. -/
def Enters (run : BodyRunner) (stack : BlockStack) (a : Assignment) (s : Session) (c : Entry) :
    Prop :=
  ∃ n t, Yields (toNode a.value a.name) s (.ok n) t ∧ n.Enters run stack t c

end Assignment

/-- A call by its path, its arguments and its keywords. -/
abbrev FieldCall := List String × List Expr × List (String × Expr)

/-- What a call is made with: the block, the names of the path, and the arguments. -/
def callParts (stack : BlockStack) (c : FieldCall) :
    Run (Nat × List String × List Value × Fields) := do
  let id ← blockAt stack 0
  let names ← refPath true c.1
  let vs ← buildItems stack c.2.1
  return (id, names, vs, keywordFields (← buildFields stack c.2.2))

/-- The keywords that a call of the block itself hands on: the name may be one of
    them. -/
def wordsBesideName (args : List Value) (keywords : Fields) : Fields :=
  if args.isEmpty then keywords.filter (·.1.text != "name") else keywords

/-- A call comes to an assignment, of a reference or of the block itself. -/
inductive FieldCall.Assigns (stack : BlockStack) (c : FieldCall) (s : Session) :
    Assignment → Session → Prop
  | reference {id : Nat} {names : List String} {vs : List Value} {fs : Fields} {t u : Session}
      {v : Value} (hparts : Yields (callParts stack c) s (.ok (id, names, vs, fs)) t)
      (hnames : names.isEmpty = false) (hself : fs.names.contains "self" = false)
      (hvalue : Yields (callValue vs fs) t (.ok v) u) :
      FieldCall.Assigns stack c s ⟨id, .ofText (dotted names), v⟩ u
  | block {id : Nat} {names : List String} {vs rest : List Value} {fs : Fields}
      {t u w : Session} {v : Value} {text : String} {form : TextForm}
      (hparts : Yields (callParts stack c) s (.ok (id, names, vs, fs)) t)
      (hnames : names.isEmpty = true)
      (htaken : fs.names.find?
        (if vs.isEmpty then ["self"] else ["self", "name"]).contains = none)
      (hname : Yields (calledName vs fs) t (.ok (.scalar (.text text form), rest)) u)
      (hvalue : Yields (callValue rest (wordsBesideName vs fs)) u (.ok v) w) :
      FieldCall.Assigns stack c s ⟨id, ⟨text, form⟩, v⟩ w

/-- A statement comes to an assignment. -/
inductive Stmt.Assigns (stack : BlockStack) : Stmt → Session → Assignment → Session → Prop
  | set {path : List String} {e : Expr} {v : Value} {id : Nat} {names : List String}
      {s t u w : Session} (hvalue : Yields (e.build stack) s (.ok v) t)
      (hblock : Yields (blockAt stack 0) t (.ok id) u)
      (hpath : Yields (refPath true path.dropLast) u (.ok names) w)
      (hlast : isPrivate (path.getLast?.getD "") = false) :
      Stmt.Assigns stack (.set path e) s
        ⟨id, .ofText (dotted (names ++ [fieldName (path.getLast?.getD "")])), v⟩ w
  | item {key e : Expr} {text : String} {form : TextForm} {v : Value} {id : Nat}
      {s t u w : Session} (hkey : Yields (key.build stack) s (.ok (.scalar (.text text form))) t)
      (hvalue : Yields (e.build stack) t (.ok v) u)
      (hblock : Yields (blockAt stack 0) u (.ok id) w) :
      Stmt.Assigns stack (.item key e) s ⟨id, ⟨text, form⟩, v⟩ w
  | call {path : List String} {args : List Expr} {keywords : List (String × Expr)}
      {s t : Session} {a : Assignment} (h : FieldCall.Assigns stack (path, args, keywords) s a t) :
      Stmt.Assigns stack (.call path args keywords) s a t
  | named {name : Expr} {args : List Expr} {keywords : List (String × Expr)} {s t : Session}
      {a : Assignment} (h : FieldCall.Assigns stack ([], name :: args, keywords) s a t) :
      Stmt.Assigns stack (.named name args keywords) s a t

/-- The work of a call. -/
def FieldCall.make (run : BodyRunner) (stack : BlockStack) (c : FieldCall) : Run Unit :=
  callPath run stack c.1 c.2.1 c.2.2

/-- A call comes to running a body. -/
def FieldCall.Enters (run : BodyRunner) (stack : BlockStack) (c : FieldCall) (s : Session)
    (entry : Entry) : Prop :=
  ∃ a t, c.Assigns stack s a t ∧ a.Enters run stack t entry

/-- A statement comes to running a body, and does not catch what the body fails
    with. -/
def Stmt.Enters (run : BodyRunner) : BlockStack → Stmt → Session → Entry → Prop
  | stack, .chain calls, s, c => Along (FieldCall.make run stack) (·.Enters run stack · c) calls s
  | stack, .up levels st, s, c => st.Enters run (stack.drop levels) s c
  | stack, .on key st, s, c =>
    ∃ id t, Yields (Run.keptBlock key) s (.ok id) t ∧ st.Enters run (id :: stack) t c
  | stack, st, s, c => ∃ a t, st.Assigns stack s a t ∧ a.Enters run stack t c

/-- The blocks being recorded while a body is run. -/
def Entry.inner (c : Entry) : BlockStack := c.session.blocks.size :: c.stack

/-- A body that is run comes to running another one. -/
def BodyEnters (depth : Nat) (c c' : Entry) : Prop :=
  Along (·.exec (Body.runAt depth) c.inner) (·.Enters (Body.runAt depth) c.inner · c')
    c.body.stmts c.session.opened

/-- While a body is run, a failure is raised that no body catches, and leaves some
    session. The body named third is the innermost one that is run then. -/
inductive Raises : Nat → Entry → Body → Failure → Session → Prop
  | tooDeep (c : Entry) :
      Raises 0 c c.body (.foreign "RecursionError" "maximum recursion depth exceeded" none)
        c.session
  | here {depth : Nat} {c : Entry} {x : Failure} {s' : Session}
      (h : Yields (c.body.stmts.forM (·.exec (Body.runAt depth) c.inner)) c.session.opened
        (.error x) s')
      (hown : ∀ c' e t, BodyEnters depth c c' → ¬ c'.Fails (Body.runAt depth) e t) :
      Raises (depth + 1) c c.body x s'
  | inside {depth : Nat} {c c' : Entry} {inner : Body} {x : Failure} {s' : Session}
      (hentry : BodyEnters depth c c') (h : Raises depth c' inner x s') :
      Raises (depth + 1) c inner x s'

/-! ## What is entered decides the failure -/

section

variable {α : Type} {work : α → Run Unit} {E E' : α → Session → Prop} {e e' : Failure}
  {s' t' : Session}

/-- What comes to a failure along the way fails. -/
theorem Along.fails (hE : ∀ a s, E a s → Yields (work a) s (.error e) s') (xs : List α) :
    ∀ s, Along work E xs s → Yields (xs.forM work) s (.error e) s' := by
  induction xs with
  | nil => exact fun s h => h.elim
  | cons a rest ih =>
      intro s h
      have hforM : (a :: rest).forM work = work a >>= fun _ => rest.forM work := rfl
      rw [hforM]
      rcases h with h | ⟨t, hwork, h⟩
      · exact (yields_bind_error (hE a s h)).mpr ⟨rfl, rfl⟩
      · exact (yields_bind_ok hwork).mpr (ih t h)

/-- What fails along the way is met at one place only. -/
theorem Along.meet (hE : ∀ a s, E a s → Yields (work a) s (.error e) s')
    (hE' : ∀ a s, E' a s → Yields (work a) s (.error e') t') (xs : List α) :
    ∀ s, Along work E xs s → Along work E' xs s → ∃ a t, E a t ∧ E' a t := by
  induction xs with
  | nil => exact fun s h => h.elim
  | cons a rest ih =>
      intro s h h'
      -- Work that fails does not go on, so both are met here or both are met later.
      rcases h with h | ⟨t, hwork, h⟩
      · rcases h' with h' | ⟨u, hwork', -⟩
        · exact ⟨a, s, h, h'⟩
        · exact absurd (yields_unique (hE a s h) hwork').1 error_ne_ok
      · rcases h' with h' | ⟨u, hwork', h'⟩
        · exact absurd (yields_unique (hE' a s h') hwork).1 error_ne_ok
        · rw [(yields_unique hwork' hwork).2] at h'
          exact ih t h h'

end

section

variable {run : BodyRunner} {c c' : Entry} {e e' : Failure} {s' t' : Session}

mutual

/-- Resolving fails with what a body fails with that it enters. -/
theorem Node.Enters.fails (hc : c.Fails run e s') {stack : BlockStack} :
    (n : Node) → (s : Session) → n.Enters run stack s c →
      Yields (n.resolve (run stack)) s (.error e) s'
  | .nested b, s, h => by
    rw [Node.Enters] at h
    rw [h] at hc
    rw [Node.resolve]
    exact hc
  | .seq items, s, h => by
    rw [Node.Enters] at h
    rw [Node.resolve]
    exact (yields_bind_error (itemsEnter_fails hc items s h)).mpr ⟨rfl, rfl⟩
  | .mapping entries, s, h => by
    rw [Node.Enters] at h
    rw [Node.resolve]
    exact (yields_bind_error (entriesEnter_fails hc entries [] s h)).mpr ⟨rfl, rfl⟩
  | .scalar _ _, _, h => by
    rw [Node.Enters] at h
    exact h.elim
  | .raw _, _, h => by
    rw [Node.Enters] at h
    exact h.elim

theorem itemsEnter_fails (hc : c.Fails run e s') {stack : BlockStack} :
    (ns : List Node) → (s : Session) → itemsEnter run stack ns s c →
      Yields (resolveItems (run stack) ns) s (.error e) s'
  | [], _, h => by
    rw [itemsEnter] at h
    exact h.elim
  | n :: rest, s, h => by
    rw [itemsEnter] at h
    rw [resolveItems]
    rcases h with h | ⟨v, t, hv, h⟩
    · exact (yields_bind_error (Node.Enters.fails hc n s h)).mpr ⟨rfl, rfl⟩
    · rw [yields_bind_ok hv]
      exact (yields_bind_error (itemsEnter_fails hc rest t h)).mpr ⟨rfl, rfl⟩

theorem entriesEnter_fails (hc : c.Fails run e s') {stack : BlockStack} :
    (ns : List (Name × Node)) → (done : Fields) → (s : Session) →
      entriesEnter run stack ns s c →
        Yields (resolveEntries (run stack) done ns) s (.error e) s'
  | [], _, _, h => by
    rw [entriesEnter] at h
    exact h.elim
  | (name, n) :: rest, done, s, h => by
    rw [entriesEnter] at h
    rw [resolveEntries]
    rcases h with h | ⟨v, t, hv, h⟩
    · exact (yields_bind_error (Node.Enters.fails hc n s h)).mpr ⟨rfl, rfl⟩
    · rw [yields_bind_ok hv]
      exact entriesEnter_fails hc rest _ t h

end

mutual

/-- A node enters one body only that fails. -/
theorem Node.Enters.unique (hc : c.Fails run e s') (hc' : c'.Fails run e' t')
    {stack : BlockStack} : (n : Node) → (s : Session) → n.Enters run stack s c →
      n.Enters run stack s c' → c = c'
  | .nested b, s, h, h' => by
    rw [Node.Enters] at h h'
    rw [h, h']
  | .seq items, s, h, h' => by
    rw [Node.Enters] at h h'
    exact itemsEnter_unique hc hc' items s h h'
  | .mapping entries, s, h, h' => by
    rw [Node.Enters] at h h'
    exact entriesEnter_unique hc hc' entries s h h'
  | .scalar _ _, _, h, _ => by
    rw [Node.Enters] at h
    exact h.elim
  | .raw _, _, h, _ => by
    rw [Node.Enters] at h
    exact h.elim

theorem itemsEnter_unique (hc : c.Fails run e s') (hc' : c'.Fails run e' t')
    {stack : BlockStack} : (ns : List Node) → (s : Session) → itemsEnter run stack ns s c →
      itemsEnter run stack ns s c' → c = c'
  | [], _, h, _ => by
    rw [itemsEnter] at h
    exact h.elim
  | n :: rest, s, h, h' => by
    rw [itemsEnter] at h h'
    rcases h with h | ⟨v, t, hv, h⟩
    · rcases h' with h' | ⟨w, u, hw, -⟩
      · exact Node.Enters.unique hc hc' n s h h'
      -- A node that enters the failing body has no value, so the rest is not reached.
      · exact absurd (yields_unique (Node.Enters.fails hc n s h) hw).1 error_ne_ok
    · rcases h' with h' | ⟨w, u, hw, h'⟩
      · exact absurd (yields_unique (Node.Enters.fails hc' n s h') hv).1 error_ne_ok
      · rw [(yields_unique hw hv).2] at h'
        exact itemsEnter_unique hc hc' rest t h h'

theorem entriesEnter_unique (hc : c.Fails run e s') (hc' : c'.Fails run e' t')
    {stack : BlockStack} : (ns : List (Name × Node)) → (s : Session) →
      entriesEnter run stack ns s c → entriesEnter run stack ns s c' → c = c'
  | [], _, h, _ => by
    rw [entriesEnter] at h
    exact h.elim
  | (name, n) :: rest, s, h, h' => by
    rw [entriesEnter] at h h'
    rcases h with h | ⟨v, t, hv, h⟩
    · rcases h' with h' | ⟨w, u, hw, -⟩
      · exact Node.Enters.unique hc hc' n s h h'
      -- As for items: a node that fails leaves nothing to the rest.
      · exact absurd (yields_unique (Node.Enters.fails hc n s h) hw).1 error_ne_ok
    · rcases h' with h' | ⟨w, u, hw, h'⟩
      · exact absurd (yields_unique (Node.Enters.fails hc' n s h') hv).1 error_ne_ok
      · rw [(yields_unique hw hv).2] at h'
        exact entriesEnter_unique hc hc' rest t h h'

end

namespace Assignment

variable {stack : BlockStack} {a : Assignment} {s : Session}

theorem Enters.fails (hc : c.Fails run e s') (h : a.Enters run stack s c) :
    Yields (a.perform run stack) s (.error e) s' := by
  rcases h with ⟨n, t, hnode, h⟩
  unfold perform assignField
  rw [yields_bind_ok hnode]
  exact (yields_bind_error (h.fails hc n t)).mpr ⟨rfl, rfl⟩

theorem Enters.unique (hc : c.Fails run e s') (hc' : c'.Fails run e' t')
    (h : a.Enters run stack s c) (h' : a.Enters run stack s c') : c = c' := by
  rcases h with ⟨n, t, hnode, h⟩
  rcases h' with ⟨n', u, hnode', h'⟩
  rcases yields_unique hnode hnode' with ⟨hn, rfl⟩
  cases hn
  exact Node.Enters.unique hc hc' n t h h'

end Assignment

/-- A call is made with its parts. -/
theorem FieldCall.make_eq (run : BodyRunner) (stack : BlockStack) (k : FieldCall) :
    k.make run stack = callParts stack k >>= fun p =>
      if p.2.1.isEmpty then callBlock run stack p.1 p.2.2.1 p.2.2.2
      else callRef run stack p.1 p.2.1 p.2.2.1 p.2.2.2 := by
  simp only [FieldCall.make, callPath, callParts, bind_assoc, pure_bind]

/-- A call that comes to an assignment is that assignment from then on. -/
theorem FieldCall.Assigns.perform {stack : BlockStack} {k : FieldCall} {s t : Session}
    {a : Assignment} (h : k.Assigns stack s a t) {r : Except Failure Unit} :
    Yields (k.make run stack) s r s' ↔ Yields (a.perform run stack) t r s' := by
  rw [FieldCall.make_eq]
  cases h with
  | reference hparts hnames hself hvalue =>
      rw [yields_bind_ok hparts]
      simp only [hnames, callRef, hself, Bool.false_eq_true, if_false]
      exact yields_bind_ok hvalue
  | block hparts hnames htaken hname hvalue =>
      rw [yields_bind_ok hparts]
      simp only [hnames, if_true, callBlock, htaken]
      rw [yields_bind_ok hname]
      exact yields_bind_ok hvalue

/-- A call comes to one assignment only. -/
theorem FieldCall.Assigns.unique {stack : BlockStack} {k : FieldCall} {s t u : Session}
    {a b : Assignment} (h : k.Assigns stack s a t) (h' : k.Assigns stack s b u) :
    a = b ∧ t = u := by
  cases h with
  | reference hparts hnames hself hvalue =>
      cases h' with
      | reference hparts' hnames' hself' hvalue' =>
          rcases yields_unique hparts hparts' with ⟨hp, rfl⟩
          cases hp
          rcases yields_unique hvalue hvalue' with ⟨hv, rfl⟩
          cases hv
          exact ⟨rfl, rfl⟩
      -- A call names one field of a reference or is made on a block, not both.
      | block hparts' hnames' =>
          cases (yields_unique hparts hparts').1
          simp [hnames] at hnames'
  | block hparts hnames htaken hname hvalue =>
      cases h' with
      | reference hparts' hnames' =>
          cases (yields_unique hparts hparts').1
          simp [hnames] at hnames'
      | block hparts' hnames' htaken' hname' hvalue' =>
          rcases yields_unique hparts hparts' with ⟨hp, rfl⟩
          cases hp
          rcases yields_unique hname hname' with ⟨hn, rfl⟩
          cases hn
          rcases yields_unique hvalue hvalue' with ⟨hv, rfl⟩
          cases hv
          exact ⟨rfl, rfl⟩

theorem Stmt.Assigns.perform {stack : BlockStack} {st : Stmt} {s t : Session} {a : Assignment}
    (h : st.Assigns stack s a t) {r : Except Failure Unit} :
    Yields (st.exec run stack) s r s' ↔ Yields (a.perform run stack) t r s' := by
  cases h with
  | set hvalue hblock hpath hlast =>
      rw [Stmt.exec, yields_bind_ok hvalue, setPath, yields_bind_ok hblock,
        yields_bind_ok hpath]
      simp only [hlast, Bool.false_eq_true, if_false]
      rfl
  | item hkey hvalue hblock =>
      rw [Stmt.exec, yields_bind_ok hkey, yields_bind_ok hvalue]
      exact yields_bind_ok hblock
  | call h => exact h.perform
  | named h => exact h.perform

theorem Stmt.Assigns.unique {stack : BlockStack} {st : Stmt} {s t u : Session}
    {a b : Assignment} (h : st.Assigns stack s a t) (h' : st.Assigns stack s b u) :
    a = b ∧ t = u := by
  cases h with
  | set hvalue hblock hpath hlast =>
      cases h' with
      | set hvalue' hblock' hpath' hlast' =>
          rcases yields_unique hvalue hvalue' with ⟨hv, rfl⟩
          rcases yields_unique hblock hblock' with ⟨hid, rfl⟩
          rcases yields_unique hpath hpath' with ⟨hnames, rfl⟩
          cases hv
          cases hid
          cases hnames
          exact ⟨rfl, rfl⟩
  | item hkey hvalue hblock =>
      cases h' with
      | item hkey' hvalue' hblock' =>
          rcases yields_unique hkey hkey' with ⟨hk, rfl⟩
          rcases yields_unique hvalue hvalue' with ⟨hv, rfl⟩
          rcases yields_unique hblock hblock' with ⟨hid, rfl⟩
          cases hk
          cases hv
          cases hid
          exact ⟨rfl, rfl⟩
  | call h =>
      cases h' with
      | call h' => exact h.unique h'
  | named h =>
      cases h' with
      | named h' => exact h.unique h'

theorem FieldCall.Enters.fails (hc : c.Fails run e s') {stack : BlockStack} (k : FieldCall)
    (s : Session) (h : k.Enters run stack s c) : Yields (k.make run stack) s (.error e) s' := by
  rcases h with ⟨a, t, ha, h⟩
  exact ha.perform.mpr (h.fails hc)

theorem FieldCall.Enters.unique (hc : c.Fails run e s') (hc' : c'.Fails run e' t')
    {stack : BlockStack} (k : FieldCall) (s : Session) (h : k.Enters run stack s c)
    (h' : k.Enters run stack s c') : c = c' := by
  rcases h with ⟨a, t, ha, h⟩
  rcases h' with ⟨b, u, hb, h'⟩
  rcases ha.unique hb with ⟨rfl, rfl⟩
  exact h.unique hc hc' h'

/-- A statement fails with what a body fails with that it enters. -/
theorem Stmt.Enters.fails (hc : c.Fails run e s') (stack : BlockStack) (st : Stmt) (s : Session)
    (h : st.Enters run stack s c) : Yields (st.exec run stack) s (.error e) s' := by
  fun_induction Stmt.Enters run stack st s c with
  | case1 stack calls s =>
      rw [Stmt.exec]
      have hcalls := Along.fails (FieldCall.Enters.fails hc) calls s h
      exact (yields_bind_error hcalls).mpr ⟨rfl, rfl⟩
  | case2 stack levels st s c ih =>
      rw [Stmt.exec]
      exact ih hc h
  | case3 stack key st s c ih =>
      rcases h with ⟨id, t, hkey, h⟩
      rw [Stmt.exec, yields_bind_ok hkey]
      exact ih id t hc h
  | case4 stack st s c =>
      rcases h with ⟨a, t, ha, h⟩
      exact ha.perform.mpr (h.fails hc)

/-- A statement enters one body only that fails. -/
theorem Stmt.Enters.unique (hc : c.Fails run e s') (hc' : c'.Fails run e' t')
    (stack : BlockStack) (st : Stmt) (s : Session) (h : st.Enters run stack s c)
    (h' : st.Enters run stack s c') : c = c' := by
  fun_induction Stmt.Enters run stack st s c with
  | case1 stack calls s =>
      rw [Stmt.Enters] at h'
      -- The calls before were made by both, so that the two bodies are entered in one call.
      rcases Along.meet (FieldCall.Enters.fails hc) (FieldCall.Enters.fails hc') calls s h h' with
        ⟨k, t, hk, hk'⟩
      exact hk.unique hc hc' k t hk'
  | case2 stack levels st s c ih =>
      rw [Stmt.Enters] at h'
      exact ih hc h h'
  | case3 stack key st s c ih =>
      rw [Stmt.Enters] at h'
      rcases h with ⟨id, t, hkey, h⟩
      rcases h' with ⟨id', u, hkey', h'⟩
      rcases yields_unique hkey hkey' with ⟨hid, rfl⟩
      cases hid
      exact ih id t hc h h'
  | case4 stack st s c hchain hup hon =>
      rw [Stmt.Enters] at h'
      · rcases h with ⟨a, t, ha, h⟩
        rcases h' with ⟨b, u, hb, h'⟩
        -- It comes to one assignment only, which enters one body that fails.
        rcases ha.unique hb with ⟨rfl, rfl⟩
        exact h.unique hc hc' h'
      · exact hchain
      · exact hup
      · exact hon

end

/-! ## What is raised -/

section

variable {depth : Nat} {c c' : Entry} {e : Failure} {s' : Session}

/-- The statements of a body fail with what a body fails with that they enter. -/
theorem BodyEnters.stmts_fail (h : BodyEnters depth c c')
    (hc : c'.Fails (Body.runAt depth) e s') :
    Yields (c.body.stmts.forM (·.exec (Body.runAt depth) c.inner)) c.session.opened (.error e)
      s' :=
  Along.fails (fun st s h => Stmt.Enters.fails hc _ st s h) c.body.stmts _ h

/-- A body enters one body only that fails. -/
theorem BodyEnters.unique {c'' : Entry} {e' : Failure} {t' : Session}
    (h : BodyEnters depth c c') (hc : c'.Fails (Body.runAt depth) e s')
    (h' : BodyEnters depth c c'') (hc' : c''.Fails (Body.runAt depth) e' t') : c' = c'' := by
  rcases Along.meet (fun st s h => Stmt.Enters.fails hc _ st s h)
    (fun st s h => Stmt.Enters.fails hc' _ st s h) c.body.stmts _ h h' with ⟨st, t, hst, hst'⟩
  exact Stmt.Enters.unique hc hc' _ st t hst hst'

/-- A body fails if its statements fail, with what they fail with, wrapped. -/
theorem fails_succ_iff : c.Fails (Body.runAt (depth + 1)) e s' ↔
    ∃ x, Yields (c.body.stmts.forM (·.exec (Body.runAt depth) c.inner)) c.session.opened
      (.error x) s' ∧ e = x.inBody c.body := by
  unfold Entry.Fails
  rw [Body.runAt, yields_bind_ok (yields_newBlock.mpr ⟨rfl, rfl⟩), yields_bind]
  constructor
  · rintro (⟨u, m, -, h⟩ | ⟨e', h, he⟩)
    · exact absurd (yields_pure.mp h).1 error_ne_ok
    · cases he
      -- The handler throws again what it caught, wrapped.
      rcases yields_tryCatch.mp h with ⟨a, -, ha⟩ | ⟨x, m, hx, hthrow⟩
      · exact absurd ha error_ne_ok
      · rcases yields_throw.mp hthrow with ⟨hwrap, rfl⟩
        cases hwrap
        exact ⟨x, hx, rfl⟩
  · rintro ⟨x, hx, rfl⟩
    refine Or.inr ⟨_, ?_, rfl⟩
    exact yields_tryCatch.mpr (Or.inr ⟨x, s', hx, yields_throw.mpr ⟨rfl, rfl⟩⟩)

/-- A body fails with what is raised in it, wrapped at the innermost body. -/
theorem Raises.fails {inner : Body} {x : Failure} (h : Raises depth c inner x s') :
    c.Fails (Body.runAt depth) (x.inBody inner) s' := by
  induction h with
  | tooDeep c =>
      unfold Entry.Fails
      rw [Body.runAt]
      exact yields_throw.mpr ⟨rfl, rfl⟩
  | here h _ => exact fails_succ_iff.mpr ⟨_, h, rfl⟩
  | @inside depth c c' inner x s' hentry _ ih =>
      refine fails_succ_iff.mpr ⟨_, hentry.stmts_fail ih, ?_⟩
      rw [Failure.inBody_inBody]

/-- Whatever a body fails with was raised in it, or in a body inside it. -/
theorem exists_raises (h : c.Fails (Body.runAt depth) e s') :
    ∃ inner x, Raises depth c inner x s' ∧ e = x.inBody inner := by
  induction depth generalizing c e s' with
  | zero =>
      unfold Entry.Fails at h
      rw [Body.runAt] at h
      rcases yields_throw.mp h with ⟨he, rfl⟩
      exact ⟨c.body, _, .tooDeep c, Except.error.inj he⟩
  | succ depth ih =>
      rcases fails_succ_iff.mp h with ⟨x, hx, rfl⟩
      by_cases hown : ∃ c' e' t, BodyEnters depth c c' ∧ c'.Fails (Body.runAt depth) e' t
      · -- The body that fails inside decides the failure, which then passes as it is.
        rcases hown with ⟨c', e', t, hentry, hc'⟩
        rcases yields_unique (hentry.stmts_fail hc') hx with ⟨he, rfl⟩
        cases he
        rcases ih hc' with ⟨inner, y, hy, rfl⟩
        exact ⟨inner, y, .inside hentry hy, Failure.inBody_inBody y inner c.body⟩
      · refine ⟨c.body, x, .here hx fun c' e' t hentry hc' => ?_, rfl⟩
        exact hown ⟨c', e', t, hentry, hc'⟩

/-- One failure only is raised, in one innermost body. -/
theorem Raises.unique {inner inner' : Body} {x x' : Failure} {t' : Session}
    (h : Raises depth c inner x s') (h' : Raises depth c inner' x' t') :
    inner' = inner ∧ x' = x ∧ t' = s' := by
  induction h with
  | tooDeep c =>
      cases h'
      exact ⟨rfl, rfl, rfl⟩
  | here h hown =>
      cases h' with
      | here h' _ =>
          rcases yields_unique h' h with ⟨hx, rfl⟩
          cases hx
          exact ⟨rfl, rfl, rfl⟩
      | inside hentry h' => exact absurd h'.fails (hown _ _ _ hentry)
  | inside hentry h ih =>
      cases h' with
      | here _ hown => exact absurd h.fails (hown _ _ _ hentry)
      | inside hentry' h' =>
          rw [← hentry.unique h.fails hentry' h'.fails] at h'
          exact ih h'

end

/-! ## What a failure leaves -/

/-- Evaluating a node outside every body comes to running a body at some depth. -/
def Node.Evaluates (n : Node) (s : Session) (depth : Nat) (c : Entry) : Prop :=
  depth = n.depth + replayDepth ∧ n.Enters (Body.runAt depth) [] s c

/-- A failure leaves whatever comes to run the body that fails: nodes that are resolved,
    statements and bodies, nodes and trees that are evaluated, and documents to which
    they are added. -/
structure PassedOn (depth : Nat) (c : Entry) (e : Failure) (s' : Session) : Prop where
  node : ∀ (n : Node) (stack : BlockStack) (s : Session),
    n.Enters (Body.runAt depth) stack s c →
      Yields (n.resolve (Body.runAt depth stack)) s (.error e) s'
  statement : ∀ (st : Stmt) (stack : BlockStack) (s : Session),
    st.Enters (Body.runAt depth) stack s c →
      Yields (st.exec (Body.runAt depth) stack) s (.error e) s'
  body : ∀ outer : Entry, BodyEnters depth outer c → e.isWrapped = false →
    outer.Fails (Body.runAt (depth + 1)) e s'
  evaluation : ∀ (n : Node) (s : Session), n.Evaluates s depth c →
    Yields n.evaluate s (.error e) s'
  tree : ∀ (v : Value) (n : Node) (s t : Session),
    Yields (toNode v (.ofText "")) s (.ok n) t → n.isDocument = true → n.Evaluates t depth c →
      Yields (toMap v) s (.error e) s'
  map : ∀ (d : Document) (v : Value) (n : Node) (s t : Session), d.isClosed = false →
    Yields (toNode v (.ofText "")) s (.ok n) t → n.isDocument = true → n.Evaluates t depth c →
      Yields (d.map v) s (.error e) s'
  field : ∀ (d : Document) (name : Name) (v : Value) (n : Node) (s t : Session),
    d.isClosed = false → Yields (toNode v name) s (.ok n) t → n.Evaluates t depth c →
      Yields (d.field (.scalar (.text name.text name.form)) v) s (.error e) s'

section

variable {depth : Nat} {c : Entry} {e : Failure} {s s' t : Session}

theorem Node.Evaluates.fails (hc : c.Fails (Body.runAt depth) e s') {n : Node}
    (h : n.Evaluates s depth c) : Yields n.evaluate s (.error e) s' := by
  rcases h with ⟨rfl, h⟩
  exact h.fails hc n s

/-- A tree that a document may be built from is evaluated as its node is. -/
theorem yields_toMap_of_isDocument {v : Value} {n : Node} {r : Except Failure Value}
    (hnode : Yields (toNode v (.ofText "")) s (.ok n) t) (hn : n.isDocument = true) :
    Yields (toMap v) s r s' ↔ Yields n.evaluate t r s' := by
  unfold toMap
  rw [yields_bind_ok hnode]
  cases n with
  | mapping entries => exact Iff.rfl
  | nested b =>
      simp only [Node.evaluate, Node.resolve, Node.depth, Body.evaluate]
  | scalar v kind => simp [Node.isDocument] at hn
  | seq items => simp [Node.isDocument] at hn
  | raw v => simp [Node.isDocument] at hn

theorem yields_ensureOpen_of_open {d : Document} (hopen : d.isClosed = false) :
    Yields d.ensureOpen s (.ok ()) s := by
  simp only [Document.ensureOpen, hopen, Bool.false_eq_true, if_false]
  exact yields_pure.mpr ⟨rfl, rfl⟩

/-- What fails passes on what it fails with. -/
theorem Entry.Fails.passedOn (hc : c.Fails (Body.runAt depth) e s') : PassedOn depth c e s' where
  node n _ s h := h.fails hc n s
  statement st stack s h := h.fails hc stack st s
  body outer h he := by
    refine fails_succ_iff.mpr ⟨e, h.stmts_fail hc, ?_⟩
    rw [Failure.inBody_of_not_wrapped he]
  evaluation _ _ h := h.fails hc
  tree _ _ _ _ hnode hn h := (yields_toMap_of_isDocument hnode hn).mpr (h.fails hc)
  map d v n s t hopen hnode hn h := by
    have hmap : Yields (toMap v) s (.error e) s' :=
      (yields_toMap_of_isDocument hnode hn).mpr (h.fails hc)
    unfold Document.map
    rw [yields_bind_ok (yields_ensureOpen_of_open hopen)]
    exact (yields_bind_error hmap).mpr ⟨rfl, rfl⟩
  field d name v n s t hopen hnode h := by
    unfold Document.field
    rw [yields_bind_ok (yields_ensureOpen_of_open hopen), yields_bind_ok hnode]
    exact (yields_bind_error (h.fails hc)).mpr ⟨rfl, rfl⟩

end

/-! ## What leaves a body -/

/-- A failure is raised while a body is run, and another one leaves the body: the same
    one if this library reports it or if it asks to stop, and otherwise one that wraps it
    and names the innermost body. -/
structure WrappedOnce (depth : Nat) (c : Entry) (inner : Body) (x e : Failure) (s' : Session) :
    Prop where
  raised : Raises depth c inner x s'
  only : ∀ (inner' : Body) (x' : Failure) (t : Session), Raises depth c inner' x' t →
    inner' = inner ∧ x' = x ∧ t = s'
  fails : c.Fails (Body.runAt depth) e s'
  reported : x.isReported = true → e = x
  stops : x.isOrdinary = false → e = x
  wrapped : x.isReported = false → x.isOrdinary = true →
    e = .bodyFailed inner.display x ∧ e.className = "DocumentCompileError" ∧
      e.cause? = some x ∧
      e.message = "Failed to evaluate block " ++ inner.display ++ ": " ++ x.className ++ ": " ++
        x.text
  leaves : e.isReported = true ∨ e.isOrdinary = false
  passedOn : PassedOn depth c e s'

section

variable {depth : Nat} {c : Entry} {inner : Body} {x : Failure} {s' : Session}

/-- Nothing but what is reported or asks to stop leaves a body. -/
theorem Failure.leaves_of_not_wrapped {e : Failure} (h : e.isWrapped = false) :
    e.isReported = true ∨ e.isOrdinary = false := by
  simp only [isWrapped, Bool.and_eq_false_iff, Bool.not_eq_false'] at h
  exact h

theorem Failure.message_bodyFailed (name : String) (x : Failure) :
    (Failure.bodyFailed name x).message =
      "Failed to evaluate block " ++ name ++ ": " ++ x.className ++ ": " ++ x.text := rfl

theorem Raises.wrappedOnce (h : Raises depth c inner x s') :
    WrappedOnce depth c inner x (x.inBody inner) s' where
  raised := h
  only _ _ _ h' := h.unique h'
  fails := h.fails
  reported hx := by simp [Failure.inBody, hx]
  stops hx := by simp only [Failure.inBody, hx, Bool.not_false, Bool.or_true, if_true]
  wrapped hreported hordinary := by
    have hwrapped : x.isWrapped = true := by simp [Failure.isWrapped, hreported, hordinary]
    rw [Failure.inBody_of_wrapped hwrapped]
    exact ⟨rfl, rfl, rfl, Failure.message_bodyFailed inner.display x⟩
  leaves := Failure.leaves_of_not_wrapped (Failure.isWrapped_inBody x inner)
  passedOn := h.fails.passedOn

end

/-- A body with a list in which a mapping holds another body, which reads a name that is
    not there. -/
def draftBody : Body :=
  .mk (.named "draft") [
    .set ["notes"] (.items .list [.mapping .plain [(.scalar (.text "first" .plain),
      .body (.mk (.named "note") [.set ["text"] (.read "missing" 0)]))]])]

end Docket
