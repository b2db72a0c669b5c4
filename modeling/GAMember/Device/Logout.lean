import GAMember.Device.Session
import Mathlib.Data.List.Forall2

/-!
# What is left after a logout

Two runs of the system that differ only in the users the Google SDK gives should
not be told apart by the store once the user has logged out. The handler of
`LOGOUT_SUCCESS` keeps the stored user, so they are told apart whenever the last
users stored are different.
-/

namespace GAMember

/-! ## Runs that differ in their users -/

/-- The actions are equal but for the user they carry. -/
def Action.Alike : Action → Action → Prop
  | .loginSuccess _, .loginSuccess _ => True
  | .isLoggedSuccess (some _), .isLoggedSuccess (some _) => True
  | action, action' => action = action'

/-- The effects are equal but for what is made of a user: the user in an action,
and the path and the record in a database access. -/
def Eff.Alike : Eff → Eff → Prop
  | .put action, .put action' => action.Alike action'
  | .ref _, .ref _ => True
  | .value _, .value _ => True
  | .set _ _, .set _ _ => True
  | e, e' => e = e'

/-- The answer of the Google SDK carries a user. -/
def Eff.givesUser : Eff → Bool
  | .signIn | .getCurrentUser | .signInSilently => true
  | _ => false

/-- The same step of two runs of the system, with the same outcome but for the
user the SDK gives. -/
def SameStep : Label Request Eff Answer → Label Request Eff Answer → Prop
  | .start r, .start r' => r = r'
  | .act i e a, .act i' e' a' =>
      i = i' ∧ e.Alike e' ∧ if e.givesUser then a.failed = a'.failed else a = a'
  | _, _ => False

/-! ## The last user stored -/

/-- The user in the last answer of a run. -/
def givenUser (hist : Trace) : Option Val :=
  match hist.getLast? with
  | some (e, a) => if e.givesUser then a.prop "user" else none
  | none => none

/-- The user that was given to the run that stored one last; the labels are read
from the last one backwards. -/
def lastUserFrom : List (Label Request Eff Answer) → Val
  | [] => .object []
  | .act i (.put action) _ :: earlier =>
      if action.user?.isSome then
        (givenUser (earlier.reverse.filterMap (Label.at? i))).getD (.object [])
      else lastUserFrom earlier
  | _ :: earlier => lastUserFrom earlier

/-- The last user that the Google SDK gave and that was stored, at first the empty
object. -/
def lastUser (ls : List (Label Request Eff Answer)) : Val := lastUserFrom ls.reverse

/-- A run stores the user it was given just before. -/
theorem givenUser_of_point {r : Request} {hist : Trace} {action : Action} {user : Val}
    (point : r.Point hist (some (.put action))) (stores : action.user? = some user) :
    givenUser hist = some user := by
  cases r with
  | ecdRedirect _ =>
    have outside := point.2 _ rfl
    cases action <;> simp [Eff.ofWelcome, Action.family, Action.user?] at outside stores
  | login navigation =>
    cases point with
    | signedIn given truthy =>
      cases stores
      exact given
    | database stored shown next =>
      rcases next with database | failure
      · cases database
      · cases failure
        cases stores
    | _ => cases stores
  | isLogged navigation =>
    cases point with
    | reading reads next => cases next
    | found reads source given =>
      cases stores
      rcases source with rfl | rfl <;> simpa [givenUser, Eff.givesUser] using given
    | _ => cases stores
  | logout navigation => cases point <;> cases stores

section

variable {base64 : String → String} {allows : Device → Eff → Answer → Bool}
  {session : Option Val} {ls ls' : List (Label Request Eff Answer)}
  {c c' : Conf Device Request Eff Answer}

/-- The user in the store is the last one that was stored. -/
theorem getUser_eq
    (taken : (device base64 allows).run (.initial (.initial session)) ls = some c) :
    c.world.store.getUser = lastUser ls := by
  refine Machine.run_induction (m := device base64 allows) (c := .initial (.initial session))
    (motive := fun ls c => c.world.store.getUser = lastUser ls) rfl ?_ taken
  intro ls c l c' before ih step
  unfold lastUser at ih ⊢
  rw [List.reverse_concat]
  cases l with
  | start r =>
    cases step
    show (c.world.store.reducer r.action).getUser = _
    rw [RootState.getUser_reducer, lastUserFrom, ← ih]
    · cases r <;> rfl
    · simp
  | act i e a =>
    obtain ⟨t, t', here, standing, point, -, world, -⟩ := device_act before step
    rw [world]
    by_cases dispatches : ∃ action, e = .put action
    · rcases dispatches with ⟨action, rfl⟩
      rw [Device.after_put, lastUserFrom, List.reverse_reverse, ← Machine.hist_eq before here]
      show (c.world.store.reducer action).getUser = _
      rw [RootState.getUser_reducer]
      cases stores : action.user? with
      | none => simpa using ih
      | some user => simp [givenUser_of_point point stores]
    · rw [Device.after_store (Eff.dispatched?_eq_none fun action same => dispatches ⟨action, same⟩),
        lastUserFrom, ih]
      · rintro _ action _ ⟨⟩
        exact dispatches ⟨action, rfl⟩

end

/-! ## The two-run statement -/

/-- The state without the stored user. -/
def RootState.forgetUser (state : RootState) : RootState :=
  { state with welcome := { state.welcome with user := .undefined } }

theorem eq_iff_forgetUser {state state' : RootState} :
    state = state' ↔
      state.forgetUser = state'.forgetUser ∧ state.getUser = state'.getUser := by
  constructor
  · intro same
    subst same
    exact ⟨rfl, rfl⟩
  · rcases state with ⟨⟨_, _, _, _, _, _, _, _⟩, portal⟩
    rcases state' with ⟨⟨_, _, _, _, _, _, _, _⟩, portal'⟩
    simp only [RootState.forgetUser, RootState.getUser, RootState.mk.injEq,
      WelcomeState.mk.injEq]
    tauto

theorem forgetUser_reducer (state : RootState) (action : Action) :
    (state.forgetUser.reducer action).forgetUser = (state.reducer action).forgetUser := by
  cases action <;> rfl

/-- What tells two alike actions apart goes into the stored user only. -/
theorem forgetUser_of_alike {action action' : Action} (alike : action.Alike action')
    (state : RootState) :
    (state.reducer action).forgetUser = (state.reducer action').forgetUser := by
  cases action with
  | loginSuccess user =>
    cases action' with
    | loginSuccess user' => rfl
    | _ => cases alike
  | isLoggedSuccess user =>
    cases user with
    | none => cases alike; rfl
    | some user =>
      cases action' with
      | isLoggedSuccess user' =>
        cases user' with
        | none => cases alike
        | some user' => rfl
      | _ => cases alike
  | _ => cases alike; rfl

/-- The state after a step, as far as the store is concerned. -/
def RootState.reduced (state : RootState) : Label Request Eff Answer → RootState
  | .start r => state.reducer r.action
  | .act _ (.put action) _ => state.reducer action
  | _ => state

theorem forgetUser_reduced {state state' : RootState} {l l' : Label Request Eff Answer}
    (same : state.forgetUser = state'.forgetUser) (alike : SameStep l l') :
    (state.reduced l).forgetUser = (state'.reduced l').forgetUser := by
  cases l with
  | start r =>
    cases l' with
    | start r' =>
      cases alike
      show (state.reducer r.action).forgetUser = (state'.reducer r.action).forgetUser
      rw [← forgetUser_reducer, same, forgetUser_reducer]
    | act i' e' a' => exact alike.elim
  | act i e a =>
    cases l' with
    | start r' => exact alike.elim
    | act i' e' a' =>
      rcases alike with ⟨-, effects, -⟩
      cases e with
      | put action =>
        cases e' with
        | put action' =>
          show (state.reducer action).forgetUser = (state'.reducer action').forgetUser
          rw [← forgetUser_reducer, same, forgetUser_reducer]
          exact forgetUser_of_alike effects state'
        | _ => cases effects
      | _ =>
        cases e' with
        | put action' => cases effects
        | _ => exact same

theorem forgetUser_foldl {ls ls' : List (Label Request Eff Answer)}
    (alike : List.Forall₂ SameStep ls ls') {state state' : RootState}
    (same : state.forgetUser = state'.forgetUser) :
    (ls.foldl RootState.reduced state).forgetUser =
      (ls'.foldl RootState.reduced state').forgetUser := by
  induction alike generalizing state state' with
  | nil => exact same
  | cons step _ ih => exact ih (forgetUser_reduced same step)

section

variable {base64 : String → String} {allows : Device → Eff → Answer → Bool}
  {session session' : Option Val} {ls ls' : List (Label Request Eff Answer)}
  {c c' : Conf Device Request Eff Answer}

theorem store_eq
    (taken : (device base64 allows).run (.initial (.initial session)) ls = some c) :
    c.world.store = ls.foldl RootState.reduced .initialState := by
  refine Machine.run_induction (m := device base64 allows) (c := .initial (.initial session))
    (motive := fun ls c => c.world.store = ls.foldl RootState.reduced .initialState) rfl ?_ taken
  intro ls c l c' before ih step
  rw [List.foldl_concat, ← ih]
  cases l with
  | start r =>
    cases step
    rfl
  | act i e a =>
    obtain ⟨t, t', -, -, -, -, world, -⟩ := device_act before step
    rw [world]
    cases e with
    | put action => rw [Device.after_put]; rfl
    | _ => rw [Device.after_store rfl]; rfl

/-- The two runs differ in the stored user at most. -/
theorem forgetUser_eq
    (taken : (device base64 allows).run (.initial (.initial session)) ls = some c)
    (taken' : (device base64 allows).run (.initial (.initial session')) ls' = some c')
    (alike : List.Forall₂ SameStep ls ls') :
    c.world.store.forgetUser = c'.world.store.forgetUser := by
  rw [store_eq taken, store_eq taken']
  exact forgetUser_foldl alike rfl

end

/-- **A logout forgets the user exactly when** there is nothing to tell: two runs of
the system that are made of the same steps, with other users, and end in a
successful logout have the same store if and only if the last user stored is the
same in both. -/
theorem store_eq_iff_lastUser (base64 : String → String) (allows : Device → Eff → Answer → Bool)
    (session session' : Option Val) (ls ls' : List (Label Request Eff Answer)) (i : Nat)
    (a : Answer) (c c' : Conf Device Request Eff Answer)
    (taken : (device base64 allows).run (.initial (.initial session))
      (ls ++ [.act i (.put .logoutSuccess) a]) = some c)
    (taken' : (device base64 allows).run (.initial (.initial session'))
      (ls' ++ [.act i (.put .logoutSuccess) a]) = some c')
    (alike : List.Forall₂ SameStep ls ls') :
    c.world.store = c'.world.store ↔ lastUser ls = lastUser ls' := by
  have last (ls : List (Label Request Eff Answer)) :
      lastUser (ls ++ [.act i (.put .logoutSuccess) a]) = lastUser ls := by
    simp [lastUser, lastUserFrom, Action.user?]
  have logout : SameStep (.act i (.put .logoutSuccess) a) (.act i (.put .logoutSuccess) a) :=
    ⟨rfl, rfl, rfl⟩
  have same := forgetUser_eq taken taken' (List.rel_append alike (.cons logout .nil))
  rw [eq_iff_forgetUser, getUser_eq taken, getUser_eq taken', last ls, last ls']
  exact and_iff_right same

/-! ## Two users of one device -/

/-- Two runs with the same steps, which end in a successful logout while no `login$`
and no `isLogged$` is in flight, have the same store. -/
def LogoutForgets (base64 : String → String) (allows : Device → Eff → Answer → Bool) : Prop :=
  ∀ (session session' : Option Val) (ls ls' : List (Label Request Eff Answer)) (i : Nat)
    (a : Answer) (c c' : Conf Device Request Eff Answer),
    (device base64 allows).run (.initial (.initial session))
      (ls ++ [.act i (.put .logoutSuccess) a]) = some c →
    (device base64 allows).run (.initial (.initial session'))
      (ls' ++ [.act i (.put .logoutSuccess) a]) = some c' →
    List.Forall₂ SameStep ls ls' →
    (∀ t ∈ c.threads ++ c'.threads, t.tag.action.family ≠ .logout → t.rest.finished = true) →
    c.world.store = c'.world.store

/-- The app is opened by a user who is still signed in, and who then signs out. -/
def opensAndLeaves (user : Val) : List (Label Request Eff Answer) :=
  [.start (.isLogged ⟨.welcome⟩),
    .act 0 .configure (.returns .undefined),
    .act 0 .app (.returns .undefined),
    .act 0 .isSignedIn (.returns (.bool true)),
    .act 0 .getCurrentUser (.returns (.object [("user", user)])),
    .act 0 (.put (.isLoggedSuccess (some user))) (.returns .undefined),
    .act 0 (.navigate ⟨.welcome⟩ .dashboard) (.returns .undefined),
    .act 0 (.put (.isLoggedSuccess none)) (.returns .undefined),
    .start (.logout ⟨.dashboard⟩),
    .act 1 .signOut (.returns .undefined)]

/-- The logout succeeds. -/
def forgets : Label Request Eff Answer := .act 1 (.put .logoutSuccess) (.returns .undefined)

theorem sameStep_opensAndLeaves (user user' : Val) :
    List.Forall₂ SameStep (opensAndLeaves user) (opensAndLeaves user') := by
  simp [opensAndLeaves, SameStep, Eff.Alike, Action.Alike, Eff.givesUser]

theorem store_eq_iff_opensAndLeaves : ∃ c c' : Conf Device Request Eff Answer,
    c.world.store = c'.world.store ↔
      lastUser (opensAndLeaves annUser) = lastUser (opensAndLeaves bobUser) := by
  have possible : ((device base64Client sdkAllows).run (.initial (.initial (some annUser)))
      (opensAndLeaves annUser ++ [forgets])).isSome = true := by decide +kernel
  have possible' : ((device base64Client sdkAllows).run (.initial (.initial (some bobUser)))
      (opensAndLeaves bobUser ++ [forgets])).isSome = true := by decide +kernel
  obtain ⟨c, taken⟩ := Option.isSome_iff_exists.mp possible
  obtain ⟨c', taken'⟩ := Option.isSome_iff_exists.mp possible'
  exact ⟨c, c', store_eq_iff_lastUser base64Client sdkAllows (some annUser) (some bobUser)
    (opensAndLeaves annUser) (opensAndLeaves bobUser) 1 (.returns .undefined) c c' taken taken'
    (sameStep_opensAndLeaves annUser bobUser)⟩

/-- The user in the store, and each run's family with whether it has ended. -/
def leftAfter (c : Conf Device Request Eff Answer) : Val × List (Family × Bool) :=
  (c.world.store.getUser, c.threads.map fun t => (t.tag.action.family, t.rest.finished))

theorem finished_of_leftAfter {c : Conf Device Request Eff Answer} {user : Val}
    (found : leftAfter c = (user, [(.isLogged, true), (.logout, false)])) :
    ∀ t ∈ c.threads, t.tag.action.family ≠ .logout → t.rest.finished = true := by
  intro t member other
  have pair : (t.tag.action.family, t.rest.finished) ∈ (leftAfter c).2 :=
    List.mem_map.mpr ⟨t, member, rfl⟩
  rw [found] at pair
  simp only [List.mem_cons, Prod.mk.injEq, List.not_mem_nil, or_false] at pair
  rcases pair with ⟨-, finished⟩ | ⟨logout, -⟩
  · exact finished
  · exact absurd logout other

/-- The store still holds the user who has signed out. -/
theorem not_logoutForgets_opensAndLeaves : ¬ LogoutForgets base64Client sdkAllows := by
  intro forgotten
  have left : ((device base64Client sdkAllows).run (.initial (.initial (some annUser)))
      (opensAndLeaves annUser ++ [forgets])).map leftAfter =
      some (annUser, [(.isLogged, true), (.logout, false)]) := by decide +kernel
  have left' : ((device base64Client sdkAllows).run (.initial (.initial (some bobUser)))
      (opensAndLeaves bobUser ++ [forgets])).map leftAfter =
      some (bobUser, [(.isLogged, true), (.logout, false)]) := by decide +kernel
  obtain ⟨c, taken, found⟩ := Option.map_eq_some_iff.mp left
  obtain ⟨c', taken', found'⟩ := Option.map_eq_some_iff.mp left'
  have same : c.world.store = c'.world.store := by
    refine forgotten (some annUser) (some bobUser) (opensAndLeaves annUser)
      (opensAndLeaves bobUser) 1 (.returns .undefined) c c' taken taken'
      (sameStep_opensAndLeaves annUser bobUser) fun t member => ?_
    rcases List.mem_append.mp member with member | member
    · exact finished_of_leftAfter found t member
    · exact finished_of_leftAfter found' t member
  have ann : c.world.store.getUser = annUser := congrArg Prod.fst found
  have bob : c'.world.store.getUser = bobUser := congrArg Prod.fst found'
  rw [same, bob] at ann
  exact absurd ann (by decide)

end GAMember
