import GAMember.Saga.Root

/-!
# Where a run can stand

For each welcome saga the points at which a run can stand: what it has been
answered so far, and the effect it performs next, if any. The tables are derived
from the sagas once; what the other modules need to know about a run at some
point is read off them.
-/

namespace GAMember

open Saga

/-- The effect is a step of a database access, up to a write. -/
def Eff.readsDatabase : Eff → Bool
  | .ref _ | .value _ | .settle => true
  | _ => false

/-- The effect is a step of a database access. -/
def Eff.ofDatabase : Eff → Bool
  | .set _ _ => true
  | e => e.readsDatabase

/-- The effect reads the state of the Google SDK or sets it up. -/
def Eff.readsSdk : Eff → Bool
  | .configure | .app | .isSignedIn | .getCurrentUser | .signInSilently => true
  | _ => false

/-! ## `login$` -/

/-- The user the sign-in of a `login$` run gave it. -/
def loginUser : Trace → Option Val
  | (.signIn, a) :: _ => a.prop "user"
  | _ => none

/-- The key of that user. -/
def loginKey (hist : Trace) : Option String :=
  ((loginUser hist).bind (·.prop "email")).bind Val.replaceDots

/-- A write of `login$`: the bare record of its user goes to `/users`, and the
last thing the run did was to read no record for that user. -/
def LoginWrite (hist : Trace) (path : String) (v : Val) : Prop :=
  ∃ user email name before snapshot,
    path = "/users" ∧ v = loginUsers (replaceDots email) (.str email) name ∧
    loginUser hist = some user ∧ user.prop "email" = some (.str email) ∧
    hist = before ++ [(.value ("/users/" ++ replaceDots email), .returns snapshot)] ∧
    snapshot.truthy = false

inductive LoginPoint (navigation : Navigation) : Trace → Option Eff → Prop
  | start : LoginPoint navigation [] (some .signIn)
  | refused {a : Answer} (nothing : a.prop "user" = none) :
      LoginPoint navigation [(.signIn, a)] (some (.put .loginFail))
  | nobody {a : Answer} {user : Val} (given : a.prop "user" = some user)
      (falsy : user.truthy = false) : LoginPoint navigation [(.signIn, a)] none
  | signedIn {a : Answer} {user : Val} (given : a.prop "user" = some user)
      (truthy : user.truthy = true) :
      LoginPoint navigation [(.signIn, a)] (some (.put (.loginSuccess user)))
  | stored {past : Trace} {user : Val} {a : Answer} :
      LoginPoint navigation (past ++ [(.put (.loginSuccess user), a)])
        (some (.navigate navigation .dashboard))
  | database {past : Trace} {last e : Eff} {a : Answer}
      (stored : past.dispatched ≠ [])
      (shown : last = .navigate navigation .dashboard ∨ last.ofDatabase = true)
      (next : e.readsDatabase = true ∨ e = .put .loginFail) :
      LoginPoint navigation (past ++ [(last, a)]) (some e)
  | writing {hist : Trace} {path : String} {v : Val} (write : LoginWrite hist path v) :
      LoginPoint navigation hist (some (.set path v))
  | done {past : Trace} {last : Eff} {a : Answer}
      (stored : past.dispatched ≠ [])
      (database : last.ofDatabase = true) : LoginPoint navigation (past ++ [(last, a)]) none
  | failed {past : Trace} {a : Answer} :
      LoginPoint navigation (past ++ [(.put .loginFail, a)]) none

theorem login_points (navigation : Navigation) :
    Prog.Along (fun _ _ _ => True) (fun hist rest => LoginPoint navigation hist rest.head?) []
      (loginSaga navigation) := by
  have failing {past : Trace} {last : Eff} {a : Answer}
      (stored : past.dispatched ≠ [])
      (shown : last = .navigate navigation .dashboard ∨ last.ofDatabase = true) :
      Prog.Along (fun _ _ _ => True) (fun hist rest => LoginPoint navigation hist rest.head?)
        (past ++ [(last, a)]) (put .loginFail) :=
    ⟨.database stored shown (Or.inr rfl), fun _ _ => .failed⟩
  simp only [loginSaga, await, Saga.prop, once, Prog.pure_eq, Prog.call_bind,
    Prog.tryCatch_call, Prog.along_call]
  refine ⟨.start, fun a _ => ?_⟩
  cases a with
  | throws => exact ⟨.refused rfl, fun _ _ => @LoginPoint.failed _ [_] _⟩
  | returns result =>
  cases field : result.prop "user" with
  | none =>
    simp only [field, ofOption_none, Prog.ret_bind, Prog.thrown_bind, Prog.tryCatch_thrown]
    exact ⟨.refused field, fun _ _ => @LoginPoint.failed _ [_] _⟩
  | some user =>
  cases truthy : user.truthy with
  | false =>
    simp only [field, truthy, ofOption_some, Prog.ret_bind]
    exact .nobody field truthy
  | true =>
  obtain ⟨email, hasEmail⟩ := Val.prop_of_truthy truthy "email"
  obtain ⟨name, hasName⟩ := Val.prop_of_truthy truthy "name"
  simp only [field, truthy, hasEmail, hasName, ofOption_some, Prog.ret_bind, put,
    Prog.tryCatch_call, Prog.call_bind, Prog.along_call, if_true]
  refine ⟨.signedIn field truthy, fun b _ => ⟨.stored, fun a _ => ?_⟩⟩
  cases a with
  | throws => exact failing (by simp) (Or.inl rfl)
  | returns _ =>
  cases escaped : email.replaceDots with
  | none => exact failing (by simp) (Or.inl rfl)
  | some key =>
  obtain ⟨s, rfl, rfl⟩ := Val.replaceDots_eq_some.mp escaped
  simp only [ofOption_some, Prog.ret_bind, Prog.tryCatch_call, Prog.along_call]
  refine ⟨.database (by simp) (Or.inl rfl) (Or.inl rfl), fun a _ => ?_⟩
  cases a with
  | throws => exact failing (by simp) (Or.inr rfl)
  | returns _ =>
  simp only [Prog.ret_bind, Prog.tryCatch_call, Prog.along_call]
  refine ⟨.database (by simp) (Or.inr rfl) (Or.inl rfl), fun a _ => ?_⟩
  cases a with
  | throws =>
    refine ⟨.database (by simp) (Or.inr rfl) (Or.inl rfl), fun a _ => ?_⟩
    cases a with
    | throws => exact failing (by simp) (Or.inr rfl)
    | returns _ => exact .done (by simp) rfl
  | returns snapshot =>
  cases present : snapshot.truthy with
  | true =>
    simp only [present, Bool.not_true]
    exact .done (by simp) rfl
  | false =>
  simp only [present, Bool.not_false, if_true, Prog.tryCatch_call, Prog.along_call]
  refine ⟨.writing ⟨user, s, name, _, snapshot, rfl, rfl, field, hasEmail, rfl, present⟩,
    fun a _ => ?_⟩
  cases a with
  | returns _ => exact .done (by simp) rfl
  | throws =>
    refine ⟨.database (by simp) (Or.inr rfl) (Or.inl rfl), fun a _ => ?_⟩
    cases a with
    | throws => exact failing (by simp) (Or.inr rfl)
    | returns _ => exact .done (by simp) rfl

theorem write_of_point {navigation : Navigation} {hist : Trace} {path : String} {v : Val}
    (point : LoginPoint navigation hist (some (.set path v))) : LoginWrite hist path v := by
  cases point with
  | database stored shown next => simp [Eff.readsDatabase] at next
  | writing write => exact write

/-! ## `isLogged$` -/

inductive IsLoggedPoint (navigation : Navigation) : Trace → Option Eff → Prop
  | reading {past : Trace} {e : Eff} (reads : ∀ step ∈ past, step.1.readsSdk = true)
      (next : e.readsSdk = true) : IsLoggedPoint navigation past (some e)
  | refused {past : Trace} (reads : ∀ step ∈ past, step.1.readsSdk = true) :
      IsLoggedPoint navigation past (some (.put .isLoggedFail))
  | nobody {past : Trace} (reads : ∀ step ∈ past, step.1.readsSdk = true) :
      IsLoggedPoint navigation past (some (.put (.isLoggedSuccess none)))
  | found {past : Trace} {e : Eff} {a : Answer} {user : Val}
      (reads : ∀ step ∈ past, step.1.readsSdk = true)
      (source : e = .getCurrentUser ∨ e = .signInSilently) (given : a.prop "user" = some user) :
      IsLoggedPoint navigation (past ++ [(e, a)]) (some (.put (.isLoggedSuccess (some user))))
  | stored {past : Trace} {user : Val} {a : Answer} :
      IsLoggedPoint navigation (past ++ [(.put (.isLoggedSuccess (some user)), a)])
        (some (.navigate navigation .dashboard))
  | shown {past : Trace} {v : Val} (stored : past.dispatched ≠ []) :
      IsLoggedPoint navigation (past ++ [(.navigate navigation .dashboard, .returns v)])
        (some (.put (.isLoggedSuccess none)))
  | notShown {past : Trace} (stored : past.dispatched ≠ []) :
      IsLoggedPoint navigation (past ++ [(.navigate navigation .dashboard, .throws)])
        (some (.put .isLoggedFail))
  | done {past : Trace} {action : Action} {a : Answer}
      (last : action = .isLoggedFail ∨ action = .isLoggedSuccess none) :
      IsLoggedPoint navigation (past ++ [(.put action, a)]) none

theorem isLogged_points (navigation : Navigation) :
    Prog.Along (fun _ _ _ => True) (fun hist rest => IsLoggedPoint navigation hist rest.head?) []
      (isLoggedSaga navigation) := by
  have failing {past : Trace} (reads : ∀ step ∈ past, step.1.readsSdk = true) :
      Prog.Along (fun _ _ _ => True)
        (fun hist rest => IsLoggedPoint navigation hist rest.head?) past (put .isLoggedFail) :=
    ⟨.refused reads, fun _ _ => .done (Or.inl rfl)⟩
  -- from the point where a user is stored on, both branches run alike
  have storing {past : Trace} {e : Eff} {a : Answer} {user : Val}
      (reads : ∀ step ∈ past, step.1.readsSdk = true)
      (source : e = .getCurrentUser ∨ e = .signInSilently) (given : a.prop "user" = some user) :
      Prog.Along (fun _ _ _ => True)
        (fun hist rest => IsLoggedPoint navigation hist rest.head?) (past ++ [(e, a)])
        (Prog.tryCatch
          (do
            put (.isLoggedSuccess (some user))
            let _ ← await (.navigate navigation .dashboard)
            put (.isLoggedSuccess none))
          (put .isLoggedFail)) := by
    simp only [put, await, Prog.call_bind, Prog.ret_bind, Prog.tryCatch_call, Prog.along_call]
    refine ⟨.found reads source given, fun _ _ => ⟨.stored, fun b _ => ?_⟩⟩
    cases b with
    | returns v => exact ⟨.shown (by simp), fun _ _ => .done (Or.inr rfl)⟩
    | throws => exact ⟨.notShown (by simp), fun _ _ => .done (Or.inl rfl)⟩
  simp only [isLoggedSaga, await, Saga.prop, Prog.call_bind, Prog.tryCatch_call, Prog.along_call]
  refine ⟨.reading (by simp) rfl, fun a _ => ?_⟩
  cases a with
  | throws => exact failing (by simp [Eff.readsSdk])
  | returns _ =>
  refine ⟨.reading (by simp [Eff.readsSdk]) rfl, fun a _ => ?_⟩
  cases a with
  | throws => exact failing (by simp [Eff.readsSdk])
  | returns _ =>
  refine ⟨.reading (by simp [Eff.readsSdk]) rfl, fun a _ => ?_⟩
  cases a with
  | throws => exact failing (by simp [Eff.readsSdk])
  | returns isLogged =>
  cases signedIn : isLogged.truthy with
  | false =>
    simp only [signedIn, Prog.ret_bind]
    exact ⟨.nobody (by simp [Eff.readsSdk]), fun _ _ => .done (Or.inr rfl)⟩
  | true =>
  simp only [signedIn, if_true, Prog.ret_bind, Prog.tryCatch_call, Prog.along_call]
  refine ⟨.reading (by simp [Eff.readsSdk]) rfl, fun a _ => ?_⟩
  cases a with
  | throws => exact failing (by simp [Eff.readsSdk])
  | returns userInfo =>
  cases known : userInfo.truthy with
  | true =>
    obtain ⟨user, field⟩ := Val.prop_of_truthy known "user"
    simp only [known, field, if_true, ofOption_some, Prog.ret_bind]
    exact storing (by simp [Eff.readsSdk]) (Or.inl rfl) field
  | false =>
  simp only [known, Prog.ret_bind]
  refine ⟨.reading (by simp [Eff.readsSdk]) rfl, fun a _ => ?_⟩
  cases a with
  | throws => exact failing (by simp [Eff.readsSdk])
  | returns result =>
  cases field : result.prop "user" with
  | none =>
    simp only [field, ofOption_none, Prog.ret_bind, Prog.thrown_bind, Prog.tryCatch_thrown]
    exact failing (by simp [Eff.readsSdk])
  | some user =>
    simp only [field, ofOption_some, Prog.ret_bind]
    exact storing (by simp [Eff.readsSdk]) (Or.inr rfl) field

/-! ## `logout$` -/

inductive LogoutPoint (navigation : Navigation) : Trace → Option Eff → Prop
  | start : LogoutPoint navigation [] (some .signOut)
  | refused : LogoutPoint navigation [(.signOut, .throws)] (some (.put .logoutFail))
  | signedOut {v : Val} :
      LogoutPoint navigation [(.signOut, .returns v)] (some (.put .logoutSuccess))
  | stored {past : Trace} {a : Answer} :
      LogoutPoint navigation (past ++ [(.put .logoutSuccess, a)])
        (some (.navigate navigation .welcome))
  | notShown {past : Trace} (stored : past.dispatched ≠ []) :
      LogoutPoint navigation (past ++ [(.navigate navigation .welcome, .throws)])
        (some (.put .logoutFail))
  | shown {past : Trace} {v : Val} (stored : past.dispatched ≠ []) :
      LogoutPoint navigation (past ++ [(.navigate navigation .welcome, .returns v)]) none
  | failed {past : Trace} {a : Answer} :
      LogoutPoint navigation (past ++ [(.put .logoutFail, a)]) none

theorem logout_points (navigation : Navigation) :
    Prog.Along (fun _ _ _ => True) (fun hist rest => LogoutPoint navigation hist rest.head?) []
      (logoutSaga navigation) := by
  simp only [logoutSaga, await, put, Prog.call_bind, Prog.tryCatch_call, Prog.along_call]
  refine ⟨.start, fun a _ => ?_⟩
  cases a with
  | throws => exact ⟨.refused, fun _ _ => @LogoutPoint.failed _ [_] _⟩
  | returns v =>
  simp only [Prog.ret_bind, Prog.tryCatch_call, Prog.along_call]
  refine ⟨.signedOut, fun _ _ => ⟨@LogoutPoint.stored _ [_] _, fun a _ => ?_⟩⟩
  cases a with
  | throws => exact ⟨.notShown (by simp), fun _ _ => .failed⟩
  | returns v => exact .shown (by simp)

/-! ## All four sagas -/

/-- The effect plays a part in signing in and out: a call of the Google SDK, a
navigation, or the dispatch of a welcome action. -/
def Eff.ofWelcome : Eff → Bool
  | .put action => action.family ≠ .ecdRedirect
  | .signIn | .signOut | .navigate _ _ => true
  | e => e.readsSdk

theorem ecdRedirect_avoids_welcome (base64 : String → String) (user : Val) :
    (ecdRedirectSaga base64 user).Avoids Eff.ofWelcome :=
  ecdRedirect_avoids base64 user (fun _ _ _ => rfl) (fun _ => rfl) (fun _ _ => rfl) rfl
    (fun _ => rfl) (fun _ => rfl) rfl

/-- Where a run started for a request can stand. -/
def Request.Point (r : Request) (hist : Trace) (next : Option Eff) : Prop :=
  match r with
  | .login navigation => LoginPoint navigation hist next
  | .isLogged navigation => IsLoggedPoint navigation hist next
  | .logout navigation => LogoutPoint navigation hist next
  | .ecdRedirect _ => (∀ step ∈ hist, step.1.ofWelcome = false) ∧
      ∀ e, next = some e → e.ofWelcome = false

theorem takeEvery_points (base64 : String → String) (r : Request) :
    Prog.Along (fun _ _ _ => True) (fun hist rest => r.Point hist rest.head?) []
      (takeEvery base64 r) := by
  cases r with
  | login navigation => exact login_points navigation
  | isLogged navigation => exact isLogged_points navigation
  | logout navigation => exact logout_points navigation
  | ecdRedirect user => exact (ecdRedirect_avoids_welcome base64 user).along (by simp)

/-- Only `login$` signs in, and it does so first. -/
theorem login_of_signIn {r : Request} {hist : Trace} (point : r.Point hist (some .signIn)) :
    hist = [] ∧ ∃ navigation, r = .login navigation := by
  cases r with
  | ecdRedirect user =>
    have outside := point.2 .signIn rfl
    cases outside
  | login navigation =>
    cases point with
    | start => exact ⟨rfl, navigation, rfl⟩
    | database stored shown next => simp [Eff.readsDatabase] at next
  | isLogged navigation =>
    cases point with
    | reading reads next => cases next
  | logout navigation => cases point

end GAMember
