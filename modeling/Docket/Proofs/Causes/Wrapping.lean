import Docket.Proofs.Causes.Roots

/-!
# Errors around errors

Whoever waits for an action that failed is raised a new error around the one it
failed with, and may let another action fail with that, and so on. However many
errors are put around one another in this way, and whatever circles the causes of
the first one run in, all of them have its root.

Two facts carry the induction. Errors that are made later leave the chains of the
earlier ones alone, because no error is caused by one that is not made yet
(`IsClosed`). And the new error is on none of those chains, so the way from it to
the root is the way from the error inside it with one step before.

Errors are also told of as values, without numbers, where no circle can occur. Such
a value stands for an error if they agree in their classes all along the chain of
causes (`StandsFor`), and then their roots stand for each other too.

## Main definitions

* `Errors.IsClosed`: Errors that are caused by errors there are.
* `Errors.Grows`: More errors than before.
* `Errors.raiseAround`: What is raised to whoever waits for an action that failed.
* `Errors.relay`: Errors put around one another.
* `Errors.SharesRoot`: Errors that have one root and keep it.
* `StandsFor`: A failure that tells of an error.

## Theorems

* `Errors.Grows.root`: More errors do not change the roots of those before.
* `Errors.IsRoot.wrap`: A new error has the root of the error inside it.
* `Errors.relay_sharesRoot`: So have all errors that are put around one another.
* `StandsFor.root`: The root of a failure stands for the root of the error.
-/

namespace Docket

namespace Errors

variable {errors errors' : Errors} {id : Nat}

/-- No error is caused by one that is not made yet. -/
def IsClosed (errors : Errors) : Prop :=
  ∀ id cause, errors.cause? id = some cause → cause < errors.size

/-- Errors with more errors made after them. -/
def Grows (errors errors' : Errors) : Prop := ∀ j < errors.size, errors'[j]? = errors[j]?

/-- A new error around an error, as it is raised to whoever waits for an action that
    failed with that. -/
def raiseAround (errors : Errors) (id : Nat) : Except Failure Errors :=
  let text := (errors[id]?.map (·.text)).getD ""
  errors.make (.kind .actionFailed) [.value (.text ("Action failed: " ++ text)), .error id] []

/-- Lets so many actions fail one after another, the first with a given error and each
    other with what is raised to whoever waits for the one before. -/
def relay : Nat → Errors → Nat → Except Failure (Errors × List Nat)
  | 0, errors, _ => return (errors, [])
  | n + 1, errors, id => do
    let (later, raised) ← relay n (← errors.raiseAround id) errors.size
    return (later, errors.size :: raised)

/-- All of some errors that were raised have the root of a given error, and keep it
    from when they were made. -/
structure SharesRoot (errors later : Errors) (id : Nat) (raised : List Nat) : Prop where
  root : ∀ j ∈ id :: raised, later.root j = errors.root id
  kept : ∀ j ∈ raised, ∃ r, later[j]? = some r ∧ r.cls = .kind .actionFailed ∧
    r.lookUp "root_failure" = .ok (.error (errors.root id))

/-! ### More errors -/

namespace Grows

theorem lt_size (h : errors.Grows errors') {j : Nat} (hj : j < errors.size) :
    j < errors'.size := by
  have hget := h j hj
  rw [Array.getElem?_eq_getElem hj] at hget
  exact (Array.getElem?_eq_some_iff.mp hget).1

theorem trans {errors'' : Errors} (h : errors.Grows errors') (h' : errors'.Grows errors'') :
    errors.Grows errors'' :=
  fun j hj => (h' j (h.lt_size hj)).trans (h j hj)

theorem push (errors : Errors) (r : ErrorRecord) : errors.Grows (errors.push r) := by
  intro j hj
  rw [Array.getElem?_push, if_neg (Nat.ne_of_lt hj)]

theorem cause? (h : errors.Grows errors') {j : Nat} (hj : j < errors.size) :
    errors'.cause? j = errors.cause? j := by
  rw [Errors.cause?, h j hj, Errors.cause?]

theorem wraps (h : errors.Grows errors') {j : Nat} (hj : j < errors.size) :
    errors'.Wraps j ↔ errors.Wraps j := by
  rw [Wraps, IsWrapper, h j hj, h.cause? hj, Wraps, IsWrapper]

end Grows

theorem IsClosed.chain_lt_size (hclosed : errors.IsClosed) (hid : id < errors.size) {n j : Nat}
    (h : errors.chain id n = some j) : j < errors.size := by
  induction n generalizing id with
  | zero => exact Option.some.inj h ▸ hid
  | succ n ih =>
      rw [chain] at h
      rcases Option.bind_eq_some_iff.mp h with ⟨cause, hcause, hrest⟩
      exact ih (hclosed id cause hcause) hrest

theorem Grows.chain (h : errors.Grows errors') (hclosed : errors.IsClosed)
    (hid : id < errors.size) (n : Nat) : errors'.chain id n = errors.chain id n := by
  induction n generalizing id with
  | zero => rfl
  | succ n ih =>
      rw [Errors.chain, h.cause? hid, Errors.chain]
      cases hcause : errors.cause? id with
      | none => rfl
      | some cause => exact ih (hclosed id cause hcause)

/-- The way from an error to its root is still the way when there are more errors. -/
theorem Grows.isRoot {origin : Nat} (h : errors.Grows errors') (hclosed : errors.IsClosed)
    (hid : id < errors.size) (hroot : errors.IsRoot id origin) : errors'.IsRoot id origin := by
  rcases hroot with ⟨steps, hroot, hwraps, hdistinct, hends⟩
  have hchain := h.chain hclosed hid
  refine ⟨steps, by rw [hchain, hroot], fun n hn => ?_, fun m n hmn hn => ?_, ?_⟩
  · rcases hwraps n hn with ⟨j, hj, hjw⟩
    exact ⟨j, by rw [hchain, hj], (h.wraps hjw.lt_size).mpr hjw⟩
  · rw [hchain, hchain]
    exact hdistinct m n hmn hn
  · rcases hends with hplain | ⟨n, hn, heq⟩
    · exact Or.inl fun hw => hplain ((h.wraps (hclosed.chain_lt_size hid hroot)).mp hw)
    · exact Or.inr ⟨n, hn, by rw [hchain, heq]⟩

theorem Grows.root (h : errors.Grows errors') (hclosed : errors.IsClosed)
    (hid : id < errors.size) : errors'.root id = errors.root id :=
  (isRoot_root errors' id).unique (h.isRoot hclosed hid (isRoot_root errors id))

/-! ### One error more -/

/-- An error that is on no way from the error inside it has the same root. -/
theorem IsRoot.wrap {origin outer : Nat} (h : errors.IsRoot id origin)
    (hwraps : errors.Wraps outer) (hcause : errors.cause? outer = some id)
    (hnew : ∀ n, errors.chain id n ≠ some outer) : errors.IsRoot outer origin := by
  rcases h with ⟨steps, hroot, hall, hdistinct, hends⟩
  have hchain (n : Nat) : errors.chain outer (n + 1) = errors.chain id n := by
    rw [chain, hcause, Option.bind_some]
  -- The chain of the outer error is that of the inner one, one step later.
  refine ⟨steps + 1, by rw [hchain, hroot], ?_, ?_, ?_⟩
  · rintro (_ | n) hn
    · exact ⟨outer, rfl, hwraps⟩
    · rw [hchain]
      exact hall n (Nat.lt_of_succ_lt_succ hn)
  · rintro (_ | m) (_ | n) hmn hn
    · exact absurd hmn (Nat.lt_irrefl 0)
    · rw [hchain]
      exact (hnew n).symm
    · exact absurd hmn (Nat.not_lt_zero _)
    · rw [hchain, hchain]
      exact hdistinct m n (Nat.lt_of_succ_lt_succ hmn) (Nat.lt_of_succ_lt_succ hn)
  · rcases hends with hplain | ⟨n, hn, heq⟩
    · exact Or.inl hplain
    · exact Or.inr ⟨n + 1, Nat.succ_lt_succ hn, by rw [hchain, heq]⟩

/-- The new error is caused by the one inside it, and keeps its root. -/
theorem raiseAround_eq (errors : Errors) (id : Nat) :
    ∃ r, errors.raiseAround id = .ok (errors.push r) ∧ r.cls = .kind .actionFailed ∧
      r.cause = some id ∧ r.lookUp "root_failure" = .ok (.error (errors.root id)) :=
  ⟨_, rfl, rfl, rfl, rfl⟩

section

variable {r : ErrorRecord} (hclosed : errors.IsClosed) (hid : id < errors.size)

theorem cause?_push_size : cause? (errors.push r) errors.size = r.cause := by
  rw [cause?, Array.getElem?_push_size, Option.bind_some]

theorem size_lt_size_push : errors.size < Array.size (errors.push r) := by
  rw [Array.size_push]
  exact Nat.lt_succ_self _

include hclosed hid

theorem isClosed_push (hcause : r.cause = some id) : IsClosed (errors.push r) := by
  intro j cause hj
  rw [Array.size_push]
  have hlt : j < (errors.push r).size := by
    rcases Option.bind_eq_some_iff.mp hj with ⟨r', hr', -⟩
    exact (Array.getElem?_eq_some_iff.mp hr').1
  rw [Array.size_push] at hlt
  rcases Nat.lt_succ_iff_lt_or_eq.mp hlt with hold | rfl
  · rw [(Grows.push errors r).cause? hold] at hj
    exact Nat.lt_succ_of_lt (hclosed j cause hj)
  · rw [cause?_push_size, hcause] at hj
    exact Nat.lt_succ_of_lt (Option.some.inj hj ▸ hid)

theorem root_push_size (hcls : r.cls = .kind .actionFailed) (hcause : r.cause = some id) :
    root (errors.push r) errors.size = errors.root id := by
  have hgrows := Grows.push errors r
  have hwraps : Wraps (errors.push r) errors.size :=
    ⟨⟨r, Array.getElem?_push_size, Or.inl hcls⟩, id, cause?_push_size.trans hcause⟩
  -- The chains of the errors before do not lead to the new one, whose number is too large.
  refine (isRoot_root _ _).unique (IsRoot.wrap (hgrows.isRoot hclosed hid (isRoot_root errors id))
    hwraps (cause?_push_size.trans hcause) fun n heq => ?_)
  rw [hgrows.chain hclosed hid] at heq
  exact Nat.lt_irrefl _ (hclosed.chain_lt_size hid heq)

end

/-- However many errors are put around one another, all have the root of the first, by
    induction on their number: the root of the first that is raised is known, and it
    takes the place of the given one for the rest. -/
theorem relay_sharesRoot (n : Nat) : ∀ {errors : Errors} {id : Nat}, errors.IsClosed →
    id < errors.size → ∃ later raised, relay n errors id = .ok (later, raised) ∧
      raised.length = n ∧ errors.Grows later ∧ errors.SharesRoot later id raised := by
  induction n with
  | zero =>
      intro errors id _ _
      refine ⟨errors, [], rfl, rfl, fun _ _ => rfl, fun j hj => ?_, fun j hj => ?_⟩
      · rw [List.mem_singleton.mp hj]
      · exact absurd hj List.not_mem_nil
  | succ n ih =>
      intro errors id hclosed hid
      rcases raiseAround_eq errors id with ⟨r, hraise, hcls, hcause, hkept⟩
      -- What is raised first has the root of the given error, and the rest is put around it.
      have hroot := root_push_size hclosed hid hcls hcause
      rcases ih (isClosed_push hclosed hid hcause)
        size_lt_size_push with
        ⟨later, raised, hrelay, hlength, hgrows, hshares⟩
      have hall := (Grows.push errors r).trans hgrows
      refine ⟨later, errors.size :: raised, ?_, ?_, hall, ?_, ?_⟩
      · rw [relay, hraise]
        change (relay n (errors.push r) errors.size >>= _) = _
        rw [hrelay]
        rfl
      · rw [List.length_cons, hlength]
      · refine List.forall_mem_cons.mpr ⟨hall.root hclosed hid, fun j hj => ?_⟩
        rw [hshares.root j hj, hroot]
      · refine List.forall_mem_cons.mpr ⟨⟨r, ?_, hcls, hkept⟩, fun j hj => ?_⟩
        · rw [hgrows errors.size size_lt_size_push, Array.getElem?_push_size]
        · rw [← hroot]
          exact hshares.kept j hj

end Errors

/-! ### Errors as values -/

/-- The class of a failure as an error. -/
def Failure.errorClass (e : Failure) : ErrorClass :=
  (e.kind?.map ErrorClass.kind).getD (.foreign e.className)

/-- A failure tells of an error: they agree in their classes, and so do their causes. -/
inductive StandsFor (errors : Errors) : Failure → Nat → Prop
  | alone {e id r} (hr : errors[id]? = some r) (hcls : r.cls = e.errorClass)
      (hcause : r.cause = none) (hcause' : e.cause? = none) : StandsFor errors e id
  | caused {e c id j r} (hr : errors[id]? = some r) (hcls : r.cls = e.errorClass)
      (hcause : r.cause = some j) (hcause' : e.cause? = some c) (h : StandsFor errors c j) :
      StandsFor errors e id

namespace Failure

variable {e c : Failure}

/-- A failure that wraps none is its own root. -/
theorem root_eq_self (h : (e.errorClass ≠ .kind .actionFailed ∧ e.errorClass ≠ .kind .compile) ∨
    e.cause? = none) : e.root = e := by
  cases e with
  | bodyFailed b c => rcases h with h | h; exacts [absurd rfl h.2, absurd h nofun]
  | actionFailed c => rcases h with h | h; exacts [absurd rfl h.1, absurd h nofun]
  | reported kind m c =>
      cases c with
      | none => cases kind <;> rfl
      | some c =>
          have h := h.resolve_right nofun
          -- Of the classes made by a script the same two wrap their causes.
          cases kind with
          | actionFailed => exact absurd rfl h.1
          | compile => exact absurd rfl h.2
          | _ => rfl
  | _ => rfl

/-- A failure that wraps another has its root. -/
theorem root_eq_of_wraps (h : e.errorClass = .kind .actionFailed ∨ e.errorClass = .kind .compile)
    (hcause : e.cause? = some c) : e.root = c.root := by
  cases e with
  | bodyFailed b c' => exact Option.some.inj hcause ▸ rfl
  | actionFailed c' => exact Option.some.inj hcause ▸ rfl
  | reported kind m c' =>
      subst hcause
      cases kind with
      | actionFailed => rfl
      | compile => rfl
      | _ => rcases h with h | h <;> cases h
  | _ => rcases h with h | h <;> cases h

end Failure

namespace StandsFor

variable {errors errors' : Errors} {e : Failure} {id : Nat}

theorem grows (hgrows : errors.Grows errors') (h : StandsFor errors e id) :
    StandsFor errors' e id := by
  induction h with
  | alone hr hcls hcause hcause' =>
      exact alone ((hgrows _ (Array.getElem?_eq_some_iff.mp hr).1).trans hr) hcls hcause hcause'
  | caused hr hcls hcause hcause' _ ih =>
      exact caused ((hgrows _ (Array.getElem?_eq_some_iff.mp hr).1).trans hr) hcls hcause hcause' ih

/-- The way to the root of a failure is the chain of causes of the error. -/
theorem chain (h : StandsFor errors e id) : ∃ n j, errors.chain id n = some j ∧
    ¬ errors.Wraps j ∧ (∀ m < n, ∀ i, errors.chain id m = some i → errors.Wraps i) ∧
    StandsFor errors e.root j := by
  induction h with
  | @alone e id r hr hcls hcause hcause' =>
      refine ⟨0, id, rfl, ?_, nofun, ?_⟩
      · rintro ⟨-, cause, hc⟩
        rw [Errors.cause?, hr, Option.bind_some, hcause] at hc
        exact absurd hc nofun
      · rw [Failure.root_eq_self (Or.inr hcause')]
        exact alone hr hcls hcause hcause'
  | @caused e c id j r hr hcls hcause hcause' h ih =>
      have hc : errors.cause? id = some j := by rw [Errors.cause?, hr, Option.bind_some, hcause]
      -- A failure that is around another one is looked through; else it is the root itself.
      by_cases hw : e.errorClass = .kind .actionFailed ∨ e.errorClass = .kind .compile
      · rcases ih with ⟨n, j', hj', hplain, hbefore, hroot⟩
        have hchain (n : Nat) : errors.chain id (n + 1) = errors.chain j n := by
          rw [Errors.chain, hc, Option.bind_some]
        refine ⟨n + 1, j', by rw [hchain, hj'], hplain, ?_, ?_⟩
        · rintro (_ | m) hm i hi
          · exact Option.some.inj hi ▸ ⟨⟨r, hr, hcls ▸ hw⟩, j, hc⟩
          · rw [hchain] at hi
            exact hbefore m (Nat.lt_of_succ_lt_succ hm) i hi
        · rw [Failure.root_eq_of_wraps hw hcause']
          exact hroot
      · refine ⟨0, id, rfl, ?_, nofun, ?_⟩
        · rintro ⟨⟨r', hr', hw'⟩, -⟩
          rw [hr] at hr'
          rw [← Option.some.inj hr', hcls] at hw'
          exact hw hw'
        · rw [Failure.root_eq_self (Or.inl (not_or.mp hw))]
          exact caused hr hcls hcause hcause' h

/-- The root of a failure stands for the root of the error. -/
theorem root (h : StandsFor errors e id) : StandsFor errors e.root (errors.root id) := by
  rcases h.chain with ⟨n, j, hj, hplain, hbefore, hroot⟩
  rw [(Errors.isRoot_root errors id).eq_of_plain hj hplain hbefore]
  exact hroot

/-- What is raised to whoever waits for an action stands for the new error. -/
theorem raiseAround (h : StandsFor errors e id) (hraise : errors.raiseAround id = .ok errors') :
    StandsFor errors' (.actionFailed e) errors.size := by
  rcases Errors.raiseAround_eq errors id with ⟨r, hr, hcls, hcause, -⟩
  rw [Except.ok.inj (hraise.symm.trans hr)]
  exact caused Array.getElem?_push_size hcls hcause rfl (h.grows (Errors.Grows.push errors r))

end StandsFor

end Docket
