import GAMember.Saga.Portal
import GAMember.Saga.Welcome

/-!
# The watchers

`takeEvery` starts one run of a saga for every request action, whatever other
runs are still going on.
-/

namespace GAMember

/-- A request a component dispatches, with its payload. -/
inductive Request
  | login (navigation : Navigation)
  | isLogged (navigation : Navigation)
  | logout (navigation : Navigation)
  | ecdRedirect (user : Val)
  deriving DecidableEq

def Request.action : Request → Action
  | .login navigation => .login navigation
  | .isLogged navigation => .isLogged navigation
  | .logout navigation => .logout navigation
  | .ecdRedirect user => .ecdRedirect user

/-- The run that is started for a request. -/
def takeEvery (base64 : String → String) : Request → Saga Unit
  | .login navigation => loginSaga navigation
  | .isLogged navigation => isLoggedSaga navigation
  | .logout navigation => logoutSaga navigation
  | .ecdRedirect user => ecdRedirectSaga base64 user

end GAMember
