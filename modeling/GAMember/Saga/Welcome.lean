import GAMember.Saga.Effect

/-!
# The sagas of `state/welcome`

`login$`, `isLogged$` and `logout$`, statement by statement. Their argument
destructures `{ payload: { navigation } }`, which the components always supply.
-/

namespace GAMember

open Saga

/-- What `login$` writes to `/users` for a new user. -/
def loginUsers (emailEscaped : String) (email name : Val) : Val :=
  .object [(emailEscaped, .object [("email", email), ("name", name)])]

/-- `login$`. -/
def loginSaga (navigation : Navigation) : Saga Unit :=
  Prog.tryCatch
    (do
      let result ← await .signIn
      let user ← prop result "user"
      if user.truthy then
        put (.loginSuccess user)
        let _ ← await (.navigate navigation .dashboard)
        let email ← prop user "email"
        let emailEscaped ← ofOption email.replaceDots
        once ("/users/" ++ emailEscaped)
          (fun snapshot => do
            if !snapshot.truthy then
              let email ← prop user "email"
              let name ← prop user "name"
              let _ ← await (.set "/users" (loginUsers emailEscaped email name)))
          (pure ()))
    (put .loginFail)

/-- `isLogged$`. -/
def isLoggedSaga (navigation : Navigation) : Saga Unit :=
  Prog.tryCatch
    (do
      let _ ← await .configure
      let _ ← await .app
      let isLogged ← await .isSignedIn
      if isLogged.truthy then
        let userInfo ← await .getCurrentUser
        if userInfo.truthy then
          let user ← prop userInfo "user"
          put (.isLoggedSuccess (some user))
        else
          let result ← await .signInSilently
          let user ← prop result "user"
          put (.isLoggedSuccess (some user))
        let _ ← await (.navigate navigation .dashboard)
      put (.isLoggedSuccess none))
    (put .isLoggedFail)

/-- `logout$`. -/
def logoutSaga (navigation : Navigation) : Saga Unit :=
  Prog.tryCatch
    (do
      let _ ← await .signOut
      put .logoutSuccess
      let _ ← await (.navigate navigation .welcome))
    (put .logoutFail)

end GAMember
