import GAMember.Effects.Prog
import GAMember.Js.Text
import GAMember.State.Store

/-!
# What a saga asks of its environment

One `Eff` for each call that leaves the saga: dispatching an action, a method of
the Google SDK, the navigator, the database, the HTTP client, the link opener.
Every effect is answered by a value or by a throw; a promise that is rejected
throws at the `yield`. Between two effects a saga runs without interruption.

`Saga.once` is `ref(path).once('value', success, failure)` under a `yield`. The
call itself may throw, then the read is answered, and the callback runs when the
answer is delivered. What the promise of `once` does after its read failed or its
callback threw is not fixed here: `settle` leaves both to the environment.
-/

namespace GAMember

inductive Eff
  | put (action : Action)
  /- The Google SDK and `firebase.app`. -/
  | signIn
  | configure
  | app
  | isSignedIn
  | getCurrentUser
  | signInSilently
  | signOut
  | navigate (navigation : Navigation) (screen : Screen)
  /- The database: building a reference and calling `once` on it, the read it
  starts, how its promise settles after a failure, and a write. -/
  | ref (path : String)
  | value (path : String)
  | settle
  | set (path : String) (value : Val)
  | post (url : String) (data : Val) (opts : Val)
  | openURL (url : String)
  deriving DecidableEq

/-- What comes back from an effect. -/
inductive Answer
  | returns (v : Val)
  | throws
  deriving DecidableEq

def Answer.failed : Answer → Bool
  | .returns _ => false
  | .throws => true

/-- `const { key } = yield …`: a property of the returned value, `none` where the
call or the destructuring throws. -/
def Answer.prop (a : Answer) (key : String) : Option Val :=
  match a with
  | .returns v => v.prop key
  | .throws => none

@[simp] theorem Answer.prop_returns (v : Val) (key : String) :
    (Answer.returns v).prop key = v.prop key := rfl

@[simp] theorem Answer.prop_throws (key : String) : Answer.throws.prop key = none := rfl

@[simp] theorem Answer.failed_returns (v : Val) : (Answer.returns v).failed = false := rfl

@[simp] theorem Answer.failed_throws : Answer.throws.failed = true := rfl

abbrev Saga := Prog Eff Answer

/-- The effects of one run, answered. -/
abbrev Trace := List (Eff × Answer)

namespace Saga

/-- Perform an effect; a throw is rethrown in the saga. -/
def await (e : Eff) : Saga Val :=
  .call e fun
    | .returns v => .ret v
    | .throws => .thrown

/-- `yield put(action)`: dispatching does not throw. -/
def put (action : Action) : Saga Unit := .call (.put action) fun _ => .ret ()

/-- A step of the language that throws where it has no value. -/
def ofOption {ρ : Type} : Option ρ → Saga ρ
  | some r => .ret r
  | none => .thrown

/-- `v.key`. -/
def prop (v : Val) (key : String) : Saga Val := ofOption (v.prop key)

/-- `yield firebase.database().ref(path).once('value', success, failure)`. -/
def once (path : String) (success : Val → Saga Unit) (failure : Saga Unit) : Saga Unit := do
  let _ ← await (.ref path)
  .call (.value path) fun
    | .returns snapshot => (success snapshot).tryCatch (do let _ ← await .settle)
    | .throws => do
        failure
        let _ ← await .settle

@[simp] theorem ofOption_some {ρ : Type} (r : ρ) : (ofOption (some r) : Saga ρ) = .ret r := rfl

@[simp] theorem ofOption_none {ρ : Type} : (ofOption none : Saga ρ) = .thrown := rfl

theorem await_avoids {bad : Eff → Bool} {e : Eff} (other : bad e = false) :
    (await e).Avoids bad :=
  ⟨other, fun a => by cases a <;> trivial⟩

theorem put_avoids {bad : Eff → Bool} {action : Action} (other : bad (.put action) = false) :
    (put action).Avoids bad :=
  ⟨other, fun _ => trivial⟩

theorem ofOption_avoids {ρ : Type} {bad : Eff → Bool} (o : Option ρ) :
    (ofOption o : Saga ρ).Avoids bad := by
  cases o <;> trivial

theorem once_avoids {bad : Eff → Bool} {path : String} {success : Val → Saga Unit}
    {failure : Saga Unit} (refs : bad (.ref path) = false) (reads : bad (.value path) = false)
    (settles : bad .settle = false) (succeeding : ∀ v, (success v).Avoids bad)
    (failing : failure.Avoids bad) : (once path success failure).Avoids bad := by
  have settling : (do let _ ← await .settle : Saga Unit).Avoids bad :=
    (await_avoids settles).bind fun _ => Prog.avoids_ret _ ()
  refine (await_avoids refs).bind fun _ => ⟨reads, fun a => ?_⟩
  cases a with
  | returns snapshot => exact (succeeding snapshot).tryCatch settling
  | throws => exact failing.bind fun _ => settling

end Saga

/-- The action an effect dispatches. -/
def Eff.dispatched? : Eff → Option Action
  | .put action => some action
  | _ => none

@[simp] theorem Eff.dispatched?_put (action : Action) :
    (Eff.put action).dispatched? = some action := rfl

@[simp] theorem Eff.dispatched?_eq_none {e : Eff} (other : ∀ action, e ≠ .put action) :
    e.dispatched? = none := by
  cases e <;> first | rfl | exact absurd rfl (other _)

/-- The actions dispatched in a trace, in order. -/
def Trace.dispatched (tr : Trace) : List Action := tr.filterMap fun step => step.1.dispatched?

/-- The terminal actions of one family dispatched in a trace. -/
def Trace.terminals (tr : Trace) (X : Family) : List Action :=
  tr.dispatched.filter fun a => a.family = X ∧ a.phase ≠ .request

@[simp] theorem Trace.dispatched_nil : Trace.dispatched [] = [] := rfl

@[simp] theorem Trace.dispatched_append (tr tr' : Trace) :
    Trace.dispatched (tr ++ tr') = tr.dispatched ++ Trace.dispatched tr' :=
  List.filterMap_append

@[simp] theorem Trace.dispatched_cons (step : Eff × Answer) (tr : Trace) :
    Trace.dispatched (step :: tr) = step.1.dispatched?.toList ++ tr.dispatched := by
  unfold Trace.dispatched
  rw [List.filterMap_cons]
  cases step.1.dispatched? <;> rfl

/-- A saga that puts nothing adds nothing to what has been dispatched. -/
theorem Trace.dispatched_run {ρ : Type} {saga : Saga ρ}
    (silent : saga.Avoids fun e => e.dispatched?.isSome)
    (env : Trace → Eff → Answer) (past : Trace) :
    Trace.dispatched (saga.run env past) = past.dispatched := by
  obtain ⟨tail, trace, quiet⟩ := silent.run_eq_append env past
  have nothing : Trace.dispatched tail = [] :=
    List.filterMap_eq_nil_iff.mpr fun step here => by simpa using quiet step here
  rw [trace, dispatched_append, nothing, List.append_nil]

/-! ## Outcomes of one run -/

/-- The complete run of a saga where every call has the outcome `env` gives it. -/
def Saga.traceOf (env : Eff → Answer) (saga : Saga Unit) : Trace := saga.run (fun _ => env) []

/-- The call to `once` throws, or its promise is rejected: after a failed read,
or after its callback threw. -/
def onceRejects (env : Eff → Answer) (path : String) (callbackThrows : Val → Bool) : Bool :=
  (env (.ref path)).failed ||
    ((env .settle).failed &&
      match env (.value path) with
      | .returns snapshot => callbackThrows snapshot
      | .throws => true)

/-! ## Two users, as the Google SDK describes them -/

def annUser : Val := .object [("email", .str "ann@x.org"), ("name", .str "Ann")]

def bobUser : Val := .object [("email", .str "bob@x.org"), ("name", .str "Bob")]

end GAMember
