import GAMember.Js.Value

/-!
# The redux store

Actions, state and reducers of `state/welcome` and `state/portal`. The action
creators and the reducers keep their names from the source; an action carries
the payload the components and sagas build for it.
-/

namespace GAMember

/-- The routes of the switch navigator. -/
inductive Screen
  | welcome
  | dashboard
  deriving DecidableEq

/-- The `navigation` prop of the component a screen shows. -/
structure Navigation where
  screen : Screen
  deriving DecidableEq

/-- An action with its payload. `login`, `isLogged` and `logout` carry
`{ navigation }`, `ecdRedirect` and the two sign-in successes carry `{ user }`;
`isLoggedSuccess` is also dispatched without a payload. -/
inductive Action
  | login (navigation : Navigation)
  | loginSuccess (user : Val)
  | loginFail
  | isLogged (navigation : Navigation)
  | isLoggedSuccess (user : Option Val)
  | isLoggedFail
  | logout (navigation : Navigation)
  | logoutSuccess
  | logoutFail
  | ecdRedirect (user : Val)
  | ecdRedirectSuccess
  | ecdRedirectFail
  deriving DecidableEq

/-! ## `state/welcome` -/

/-- `isLogged` is not in the initial state: the `IS_LOGGED` handler adds it. -/
structure WelcomeState where
  loginInProgress : Bool
  loginFail : Bool
  isLoggedInProgress : Bool
  isLoggedFail : Bool
  logoutInProgress : Bool
  logoutFail : Bool
  user : Val
  isLogged : Option Navigation
  deriving DecidableEq

namespace WelcomeState

def initialState : WelcomeState where
  loginInProgress := false
  loginFail := false
  isLoggedInProgress := false
  isLoggedFail := false
  logoutInProgress := false
  logoutFail := false
  user := .object []
  isLogged := none

/-- `{ ...state, ...payload }` for a payload that is `{ user }` or absent. -/
def spread (state : WelcomeState) (payload : Option Val) : WelcomeState :=
  { state with user := payload.getD state.user }

/-- The handlers of `state/welcome/reducer.js`. -/
def reducer (state : WelcomeState) : Action → WelcomeState
  | .login _ => { state with loginInProgress := true }
  | .loginFail => { state with loginInProgress := false, loginFail := true }
  | .loginSuccess user =>
      { state.spread (some user) with loginInProgress := false, loginFail := false }
  | .isLogged navigation => { state with isLogged := some navigation, isLoggedInProgress := true }
  | .isLoggedFail => { state with isLoggedInProgress := false, isLoggedFail := true }
  | .isLoggedSuccess user =>
      { state.spread user with isLoggedInProgress := false, isLoggedFail := false }
  | .logout _ => { state with logoutInProgress := true }
  | .logoutFail => { state with logoutInProgress := false, logoutFail := true }
  | .logoutSuccess =>
      { state with logoutInProgress := false, isLoggedInProgress := false, logoutFail := false }
  | _ => state

end WelcomeState

/-! ## `state/portal` -/

/-- The initial state repeats the flags of the welcome state; the two redirect
flags are absent from it until a handler sets them. -/
structure PortalState where
  loginInProgress : Bool
  loginFail : Bool
  isLoggedInProgress : Bool
  isLoggedFail : Bool
  logoutInProgress : Bool
  logoutFail : Bool
  redirectInProgress : Option Bool
  redirectFail : Option Bool
  deriving DecidableEq

namespace PortalState

def initialState : PortalState where
  loginInProgress := false
  loginFail := false
  isLoggedInProgress := false
  isLoggedFail := false
  logoutInProgress := false
  logoutFail := false
  redirectInProgress := none
  redirectFail := none

/-- The handlers of `state/portal/reducer.js`. -/
def reducer (state : PortalState) : Action → PortalState
  | .ecdRedirect _ => { state with redirectInProgress := some true }
  | .ecdRedirectSuccess =>
      { state with redirectInProgress := some false, redirectFail := some true }
  | .ecdRedirectFail =>
      { state with redirectInProgress := some false, redirectFail := some false }
  | _ => state

end PortalState

/-! ## The root -/

structure RootState where
  welcome : WelcomeState
  portal : PortalState
  deriving DecidableEq

namespace RootState

def initialState : RootState := ⟨.initialState, .initialState⟩

/-- `combineReducers({ welcome, portal })`. -/
def reducer (state : RootState) (action : Action) : RootState :=
  ⟨state.welcome.reducer action, state.portal.reducer action⟩

/-- The selector `getUser`. -/
def getUser (state : RootState) : Val := state.welcome.user

/-- The store after the dispatch of `actions`, from the initial state. -/
def dispatched (actions : List Action) : RootState := actions.foldl reducer initialState

@[simp] theorem dispatched_nil : dispatched [] = initialState := rfl

@[simp] theorem dispatched_concat (actions : List Action) (action : Action) :
    dispatched (actions ++ [action]) = (dispatched actions).reducer action := by
  simp [dispatched]

end RootState

/-! ## Families of actions -/

/-- The request with its two terminal actions. -/
inductive Family
  | login
  | isLogged
  | logout
  | ecdRedirect
  deriving DecidableEq

inductive Phase
  | request
  | success
  | fail
  deriving DecidableEq

namespace Action

def family : Action → Family
  | .login _ | .loginSuccess _ | .loginFail => .login
  | .isLogged _ | .isLoggedSuccess _ | .isLoggedFail => .isLogged
  | .logout _ | .logoutSuccess | .logoutFail => .logout
  | .ecdRedirect _ | .ecdRedirectSuccess | .ecdRedirectFail => .ecdRedirect

def phase : Action → Phase
  | .login _ | .isLogged _ | .logout _ | .ecdRedirect _ => .request
  | .loginSuccess _ | .isLoggedSuccess _ | .logoutSuccess | .ecdRedirectSuccess => .success
  | .loginFail | .isLoggedFail | .logoutFail | .ecdRedirectFail => .fail

end Action

/-- The user an action stores. -/
def Action.user? : Action → Option Val
  | .loginSuccess user => some user
  | .isLoggedSuccess user => user
  | _ => none

theorem RootState.getUser_reducer (state : RootState) (action : Action) :
    (state.reducer action).getUser = action.user?.getD state.getUser := by
  cases action <;> rfl

/-- The in-progress flag of a family. -/
def RootState.inProgress (state : RootState) : Family → Bool
  | .login => state.welcome.loginInProgress
  | .isLogged => state.welcome.isLoggedInProgress
  | .logout => state.welcome.logoutInProgress
  | .ecdRedirect => state.portal.redirectInProgress.getD false

/-- The fail flag of a family. -/
def RootState.failed (state : RootState) : Family → Bool
  | .login => state.welcome.loginFail
  | .isLogged => state.welcome.isLoggedFail
  | .logout => state.welcome.logoutFail
  | .ecdRedirect => state.portal.redirectFail.getD false

end GAMember
