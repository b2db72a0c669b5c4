import GAMember.Device.World
import GAMember.Saga.Welcome

/-!
# How one run of a welcome saga ends

A run is made against an environment that fixes the outcome of every awaited
call. `EndsCleanly` is the contract of a saga with its reducer: exactly one
terminal action of the family, and a failure leaves the stored user and the
shown screen alone. For each of the three sagas the runs that keep it are
described by the outcomes of the calls alone.
-/

namespace GAMember

/-- Exactly one terminal action of the family, and when it is the failure the
user in the store and the shown screen are what they were before the run. -/
def EndsCleanly (X : Family) (d : Device) (tr : Trace) : Prop :=
  ∃ last : Action, tr.terminals X = [last] ∧
    (last.phase = .fail →
      (d.afterTrace tr).store.getUser = d.store.getUser ∧ (d.afterTrace tr).screen = d.screen)

/-- A step that stores no user and shows no other screen: it dispatches at most
a failure, and a navigation in it has failed. -/
def Eff.Quiet (e : Eff) (a : Answer) : Prop :=
  (∀ action, e.dispatched? = some action → action.phase = .fail) ∧
    ∀ navigation screen, e = .navigate navigation screen → a = .throws

theorem getUser_of_fail {state : RootState} {action : Action} (failure : action.phase = .fail) :
    (state.reducer action).getUser = state.getUser := by
  rw [RootState.getUser_reducer]
  cases action <;> first | rfl | cases failure

theorem Device.after_of_quiet {d : Device} {e : Eff} {a : Answer} (quiet : e.Quiet a) :
    (d.after e a).store.getUser = d.store.getUser ∧ (d.after e a).screen = d.screen := by
  constructor
  · cases dispatched : e.dispatched? with
    | none => rw [Device.after_store dispatched]
    | some action =>
      cases e with
      | put put =>
        rw [Device.after_put]
        exact getUser_of_fail (quiet.1 put rfl)
      | _ => cases dispatched
  · by_cases navigates : ∃ navigation screen, e = .navigate navigation screen
    · rcases navigates with ⟨navigation, screen, rfl⟩
      rw [quiet.2 navigation screen rfl, Device.after_throws_screen]
    · exact Device.after_screen fun navigation screen same => navigates ⟨_, _, same⟩

theorem Device.afterTrace_of_quiet {tr : Trace} (quiet : ∀ step ∈ tr, step.1.Quiet step.2)
    (d : Device) :
    (d.afterTrace tr).store.getUser = d.store.getUser ∧ (d.afterTrace tr).screen = d.screen := by
  induction tr generalizing d with
  | nil => exact ⟨rfl, rfl⟩
  | cons step tr ih =>
      obtain ⟨user, screen⟩ := Device.after_of_quiet (d := d) (quiet step List.mem_cons_self)
      obtain ⟨laterUser, laterScreen⟩ :=
        ih (fun s member => quiet s (List.mem_cons_of_mem _ member)) (d.after step.1 step.2)
      exact ⟨laterUser.trans user, laterScreen.trans screen⟩

section

variable {X : Family} {d : Device} {tr : Trace}

theorem endsCleanly_of_success (last : Action) (one : tr.terminals X = [last])
    (success : last.phase = .success) : EndsCleanly X d tr :=
  ⟨last, one, fun failure => by rw [success] at failure; cases failure⟩

theorem endsCleanly_of_quiet (last : Action) (one : tr.terminals X = [last])
    (quiet : ∀ step ∈ tr, step.1.Quiet step.2) : EndsCleanly X d tr :=
  ⟨last, one, fun _ => Device.afterTrace_of_quiet quiet d⟩

theorem not_endsCleanly (count : (tr.terminals X).length ≠ 1) : ¬ EndsCleanly X d tr := by
  intro clean
  rcases clean with ⟨last, one, -⟩
  rw [one] at count
  exact count rfl

end

section

variable (env : Eff → Answer) (navigation : Navigation) (d : Device)

open Saga

/-! ## `login$` -/

/-- A call of `login$` fails after the user has been stored: the navigation, the
escaping of an email that is no string, or the database call. -/
def loginFailsLate (user : Val) : Bool :=
  (env (.navigate navigation .dashboard)).failed ||
    match (user.prop "email").bind Val.replaceDots with
    | none => true
    | some key =>
        onceRejects env ("/users/" ++ key) fun snapshot =>
          !snapshot.truthy &&
            (env (.set "/users" (loginUsers key ((user.prop "email").getD .undefined)
              ((user.prop "name").getD .undefined)))).failed

theorem login_failed_early (nothing : (env .signIn).prop "user" = none) :
    traceOf env (loginSaga navigation) =
      [(.signIn, env .signIn), (.put .loginFail, env (.put .loginFail))] := by
  cases answer : env .signIn with
  | throws => simp [traceOf, loginSaga, await, put, answer]
  | returns result =>
    rw [answer, Answer.prop_returns] at nothing
    simp [traceOf, loginSaga, await, put, Saga.prop, answer, nothing]

theorem login_without_user {user : Val} (field : (env .signIn).prop "user" = some user)
    (falsy : user.truthy = false) :
    traceOf env (loginSaga navigation) = [(.signIn, env .signIn)] := by
  cases answer : env .signIn with
  | throws => simp [answer] at field
  | returns result =>
    rw [answer, Answer.prop_returns] at field
    simp [traceOf, loginSaga, await, put, Saga.prop, answer, field, falsy]

/-- After the user has been stored, `loginFail` follows exactly where a later
call fails. -/
theorem login_with_user {user : Val} (field : (env .signIn).prop "user" = some user)
    (truthy : user.truthy = true) :
    (traceOf env (loginSaga navigation)).dispatched =
      .loginSuccess user ::
        if loginFailsLate env navigation user then [.loginFail] else [] := by
  obtain ⟨result, answer⟩ : ∃ result, env .signIn = .returns result := by
    cases answer : env .signIn with
    | returns result => exact ⟨result, rfl⟩
    | throws => simp [answer] at field
  rw [answer, Answer.prop_returns] at field
  obtain ⟨email, hasEmail⟩ := Val.prop_of_truthy truthy "email"
  obtain ⟨name, hasName⟩ := Val.prop_of_truthy truthy "name"
  simp only [traceOf, loginSaga, await, put, Saga.prop, once, loginFailsLate, onceRejects,
    Prog.pure_eq, Prog.call_bind, Prog.ret_bind, Prog.tryCatch_call, Prog.run_call, answer, field,
    truthy, hasEmail, hasName, ofOption_some, if_true, Option.getD_some, Option.bind_some]
  cases navigated : env (.navigate navigation .dashboard) with
  | throws => simp
  | returns _ =>
    cases escaped : email.replaceDots with
    | none => simp
    | some key =>
      cases referenced : env (.ref ("/users/" ++ key)) with
      | throws => simp [referenced]
      | returns _ =>
        cases read : env (.value ("/users/" ++ key)) with
        | throws => cases settled : env .settle <;> simp [referenced, read, settled]
        | returns snapshot =>
          cases present : snapshot.truthy with
          | true => simp [referenced, read, present]
          | false =>
            cases written : env (.set "/users" (loginUsers key email name)) with
            | throws =>
              cases settled : env .settle <;> simp [referenced, read, present, written, settled]
            | returns _ => simp [referenced, read, present, written]

/-- The outcomes with which `login$` keeps its contract: the sign-in gives no
`user` property to read, or it gives a user and no later call fails. -/
def loginEndsCleanly : Bool :=
  match (env .signIn).prop "user" with
  | none => true
  | some user => user.truthy && !loginFailsLate env navigation user

theorem login_endsCleanly_iff :
    EndsCleanly .login d (traceOf env (loginSaga navigation)) ↔
      loginEndsCleanly env navigation = true := by
  unfold loginEndsCleanly
  cases field : (env .signIn).prop "user" with
  | none =>
    refine iff_of_true ?_ rfl
    rw [login_failed_early env navigation field]
    refine endsCleanly_of_quiet .loginFail ?_ (by simp [Eff.Quiet, Action.phase])
    simp [Trace.terminals, Action.family, Action.phase]
  | some user =>
    cases truthy : user.truthy with
    | false =>
      refine iff_of_false (not_endsCleanly ?_) (by simp [truthy])
      rw [login_without_user env navigation field truthy]
      simp [Trace.terminals, Action.family, Action.phase]
    | true =>
      have dispatched := login_with_user env navigation field truthy
      cases late : loginFailsLate env navigation user with
      | true =>
        refine iff_of_false (not_endsCleanly ?_) (by simp [late])
        simp [Trace.terminals, dispatched, late, Action.family, Action.phase]
      | false =>
        refine iff_of_true (endsCleanly_of_success (.loginSuccess user) ?_ rfl)
          (by simp [truthy, late])
        simp [Trace.terminals, dispatched, late, Action.family, Action.phase]

/-! ## `isLogged$` -/

/-- The calls of `isLogged$` get as far as a user to store: none of them fails,
somebody is signed in, and the current user or else the silent sign-in has a
`user` property. -/
def isLoggedFindsUser : Bool :=
  !(env .configure).failed && !(env .app).failed &&
    match env .isSignedIn with
    | .throws => false
    | .returns isLogged =>
        isLogged.truthy &&
          match env .getCurrentUser with
          | .throws => false
          | .returns userInfo => userInfo.truthy || ((env .signInSilently).prop "user").isSome

/-- Where a user is stored, a second terminal action follows. -/
theorem isLogged_with_user (found : isLoggedFindsUser env = true) :
    ∃ user, (traceOf env (isLoggedSaga navigation)).dispatched =
      [.isLoggedSuccess (some user),
        if (env (.navigate navigation .dashboard)).failed then .isLoggedFail
        else .isLoggedSuccess none] := by
  unfold isLoggedFindsUser at found
  cases configured : env .configure with
  | throws => simp [configured] at found
  | returns _ =>
  cases app : env .app with
  | throws => simp [app] at found
  | returns _ =>
  cases signed : env .isSignedIn with
  | throws => simp [signed] at found
  | returns isLogged =>
  cases current : env .getCurrentUser with
  | throws => simp [signed, current] at found
  | returns userInfo =>
  simp only [configured, app, signed, current, Answer.failed_returns, Bool.not_false,
    Bool.true_and, Bool.and_eq_true, Bool.or_eq_true] at found
  rcases found with ⟨signedIn, source⟩
  simp only [traceOf, isLoggedSaga, await, put, Saga.prop, Prog.call_bind, Prog.ret_bind,
    Prog.tryCatch_call, Prog.run_call, configured, app, signed, current, signedIn,
    if_true]
  cases known : userInfo.truthy with
  | true =>
    obtain ⟨user, field⟩ := Val.prop_of_truthy known "user"
    refine ⟨user, ?_⟩
    cases navigated : env (.navigate navigation .dashboard) <;>
      simp [field, navigated]
  | false =>
    rw [known] at source
    obtain ⟨user, field⟩ := Option.isSome_iff_exists.mp (source.resolve_left (by simp))
    refine ⟨user, ?_⟩
    cases silent : env .signInSilently with
    | throws => simp [silent] at field
    | returns result =>
      rw [silent, Answer.prop_returns] at field
      cases navigated : env (.navigate navigation .dashboard) <;>
        simp [silent, field, navigated]

/-- Where no user is found, the run dispatches one terminal action, and where
that is the failure it has done nothing else. -/
theorem isLogged_without_user (missing : isLoggedFindsUser env = false) :
    (traceOf env (isLoggedSaga navigation)).dispatched = [.isLoggedSuccess none] ∨
      ((traceOf env (isLoggedSaga navigation)).dispatched = [.isLoggedFail] ∧
        ∀ step ∈ traceOf env (isLoggedSaga navigation), step.1.Quiet step.2) := by
  unfold isLoggedFindsUser at missing
  simp only [traceOf, isLoggedSaga, await, put, Saga.prop, Prog.call_bind, Prog.ret_bind,
    Prog.tryCatch_call, Prog.run_call]
  cases configured : env .configure with
  | throws => exact Or.inr (by simp [Eff.Quiet, Action.phase])
  | returns _ =>
  cases app : env .app with
  | throws => exact Or.inr (by simp [app, Eff.Quiet, Action.phase])
  | returns _ =>
  cases signed : env .isSignedIn with
  | throws => exact Or.inr (by simp [app, signed, Eff.Quiet, Action.phase])
  | returns isLogged =>
  cases signedIn : isLogged.truthy with
  | false => exact Or.inl (by simp [app, signed, signedIn])
  | true =>
  cases current : env .getCurrentUser with
  | throws => exact Or.inr (by simp [app, signed, signedIn, current, Eff.Quiet, Action.phase])
  | returns userInfo =>
  cases known : userInfo.truthy with
  | true => simp [configured, app, signed, signedIn, current, known] at missing
  | false =>
  cases silent : env .signInSilently with
  | throws =>
    exact Or.inr (by
      simp [app, signed, signedIn, current, known, silent, Eff.Quiet, Action.phase])
  | returns result =>
  cases field : result.prop "user" with
  | some user =>
    simp [configured, app, signed, signedIn, current, known, silent, field] at missing
  | none =>
    exact Or.inr (by
      simp [app, signed, signedIn, current, known, silent, field, Eff.Quiet, Action.phase])

theorem isLogged_endsCleanly_iff :
    EndsCleanly .isLogged d (traceOf env (isLoggedSaga navigation)) ↔
      isLoggedFindsUser env = false := by
  cases found : isLoggedFindsUser env with
  | true =>
    obtain ⟨user, dispatched⟩ := isLogged_with_user env navigation found
    refine iff_of_false (not_endsCleanly ?_) (by simp)
    rw [Trace.terminals, dispatched]
    cases (env (.navigate navigation .dashboard)).failed <;> simp [Action.family, Action.phase]
  | false =>
    refine iff_of_true ?_ rfl
    rcases isLogged_without_user env navigation found with success | ⟨fail, quiet⟩
    · refine endsCleanly_of_success (.isLoggedSuccess none) ?_ rfl
      simp [Trace.terminals, success, Action.family, Action.phase]
    · refine endsCleanly_of_quiet .isLoggedFail ?_ quiet
      simp [Trace.terminals, fail, Action.family, Action.phase]

/-! ## `logout$` -/

/-- The outcomes with which `logout$` keeps its contract: the sign-out fails, or
the navigation does not. -/
def logoutEndsCleanly : Bool :=
  (env .signOut).failed || !(env (.navigate navigation .welcome)).failed

theorem logout_endsCleanly_iff :
    EndsCleanly .logout d (traceOf env (logoutSaga navigation)) ↔
      logoutEndsCleanly env navigation = true := by
  unfold logoutEndsCleanly
  simp only [traceOf, logoutSaga, await, put, Prog.call_bind, Prog.ret_bind,
    Prog.tryCatch_call, Prog.run_call]
  cases signedOut : env .signOut with
  | throws =>
    refine iff_of_true (endsCleanly_of_quiet .logoutFail ?_ ?_) rfl
    · simp [Trace.terminals, Action.family, Action.phase]
    · simp [Eff.Quiet, Action.phase]
  | returns _ =>
    cases navigated : env (.navigate navigation .welcome) with
    | throws =>
      refine iff_of_false (not_endsCleanly ?_) (by simp)
      simp [navigated, Trace.terminals, Action.family, Action.phase]
    | returns _ =>
      refine iff_of_true (endsCleanly_of_success .logoutSuccess ?_ rfl) rfl
      simp [navigated, Trace.terminals, Action.family, Action.phase]

/-- **Which runs of the welcome sagas keep their contract**, saga by saga. -/
theorem welcome_endsCleanly_iff :
    (EndsCleanly .login d (traceOf env (loginSaga navigation)) ↔
        loginEndsCleanly env navigation = true) ∧
      (EndsCleanly .isLogged d (traceOf env (isLoggedSaga navigation)) ↔
        isLoggedFindsUser env = false) ∧
      (EndsCleanly .logout d (traceOf env (logoutSaga navigation)) ↔
        logoutEndsCleanly env navigation = true) :=
  ⟨login_endsCleanly_iff env navigation d, isLogged_endsCleanly_iff env navigation d,
    logout_endsCleanly_iff env navigation d⟩

end

/-- Every call succeeds and the Google SDK holds a user. -/
def annSignedIn : Eff → Answer
  | .isSignedIn => .returns (.bool true)
  | .getCurrentUser => .returns (.object [("user", annUser)])
  | _ => .returns .undefined

/-- With a signed-in user `isLogged$` dispatches its success twice. -/
theorem not_endsCleanly_isLogged :
    ¬ EndsCleanly .isLogged (.initial (some annUser))
      (Saga.traceOf annSignedIn (isLoggedSaga ⟨.welcome⟩)) :=
  not_endsCleanly (by decide)

end GAMember
