import GAMember.State.Store
import Mathlib.Data.List.Induction

/-!
# What the flags say about the history of actions

Each family of actions has an in-progress flag and a fail flag, and both are
meant to be read off the family's own actions: a request is in progress when it
is the family's latest action, and has failed when the latest terminal action is
the failure. `latest` and `latestTerminal` state that reading of a history;
`inProgress_reducer` and `failed_reducer` say what one action does to the flags
the reducers keep. The two differ in the redirect flag, which the portal reducer
sets on success and clears on failure, and in `logoutSuccess`, which clears the
in-progress flag of `isLogged`.
-/

namespace GAMember

open RootState

/-! ## The history a flag stands for -/

/-- The phase of the family's latest action. -/
def latest (X : Family) (actions : List Action) : Option Phase :=
  ((actions.filter fun a => a.family = X).getLast?).map Action.phase

/-- The phase of the family's latest terminal action. -/
def latestTerminal (X : Family) (actions : List Action) : Option Phase :=
  ((actions.filter fun a => a.family = X ∧ a.phase ≠ .request).getLast?).map Action.phase

@[simp] theorem latest_nil (X : Family) : latest X [] = none := rfl

@[simp] theorem latestTerminal_nil (X : Family) : latestTerminal X [] = none := rfl

theorem latest_concat (X : Family) (actions : List Action) (a : Action) :
    latest X (actions ++ [a]) = if a.family = X then some a.phase else latest X actions := by
  unfold latest
  rw [List.filter_append]
  by_cases own : a.family = X <;> simp [own]

theorem latestTerminal_concat (X : Family) (actions : List Action) (a : Action) :
    latestTerminal X (actions ++ [a]) =
      if a.family = X ∧ a.phase ≠ .request then some a.phase
      else latestTerminal X actions := by
  unfold latestTerminal
  rw [List.filter_append]
  by_cases own : a.family = X ∧ a.phase ≠ .request
  · simp [own]
  · have skipped : [a].filter (fun b => b.family = X ∧ b.phase ≠ .request) = [] := by
      rw [List.filter_eq_nil_iff]
      intro b here
      rw [List.mem_singleton.mp here]
      simpa using own
    rw [if_neg own, skipped, List.append_nil]

/-- A family that has seen a terminal action has a latest one. -/
theorem latestTerminal_of_mem {X : Family} {actions : List Action} {a : Action}
    (member : a ∈ actions) (own : a.family = X) (terminal : a.phase ≠ .request) :
    latestTerminal X actions = some .success ∨ latestTerminal X actions = some .fail := by
  induction actions using List.reverseRecOn with
  | nil => cases member
  | append_singleton actions b ih =>
      rw [latestTerminal_concat]
      by_cases last : b.family = X ∧ b.phase ≠ .request
      · rw [if_pos last]
        cases phase : b.phase with
        | request => exact absurd phase last.2
        | success => exact Or.inl rfl
        | fail => exact Or.inr rfl
      · rw [if_neg last]
        rcases List.mem_append.mp member with earlier | here
        · exact ih earlier
        · rw [List.mem_singleton.mp here] at own terminal
          exact absurd ⟨own, terminal⟩ last

/-! ## What one action does to the flags -/

/-- The in-progress flag follows the family's own actions, except that
`logoutSuccess` clears the one of `isLogged` as well. -/
theorem inProgress_reducer (state : RootState) (a : Action) (X : Family) :
    (state.reducer a).inProgress X =
      if a.family = X then decide (a.phase = .request)
      else if X = .isLogged ∧ a = .logoutSuccess then false
      else state.inProgress X := by
  cases a <;> cases X <;> rfl

/-- The fail flag follows the family's own terminal actions; the one of
`ecdRedirect` is set by the success. -/
theorem failed_reducer (state : RootState) (a : Action) (X : Family) :
    (state.reducer a).failed X =
      if a.family = X ∧ a.phase ≠ .request then
        decide (a.phase = if X = .ecdRedirect then .success else .fail)
      else state.failed X := by
  cases a <;> cases X <;> rfl

/-- The fail flag after a whole history. -/
theorem failed_dispatched (actions : List Action) (X : Family) :
    (dispatched actions).failed X = true ↔
      latestTerminal X actions = some (if X = .ecdRedirect then .success else .fail) := by
  induction actions using List.reverseRecOn with
  | nil => cases X <;> simp [dispatched, initialState, failed, WelcomeState.initialState,
      PortalState.initialState]
  | append_singleton actions a ih =>
      rw [dispatched_concat, failed_reducer, latestTerminal_concat]
      split
      · simp
      · exact ih

/-! ## The flags against the history -/

/-- The flags after `actions` say of each family what its own actions say, and
no action along the way moved a flag of another family. -/
structure FlagsTellHistory (actions : List Action) : Prop where
  inProgress : ∀ X, (dispatched actions).inProgress X = true ↔
    latest X actions = some .request
  failed : ∀ X, (dispatched actions).failed X = true ↔
    latestTerminal X actions = some .fail
  frame : ∀ before a after, actions = before ++ a :: after → ∀ X, a.family ≠ X →
    (dispatched (before ++ [a])).inProgress X = (dispatched before).inProgress X ∧
      (dispatched (before ++ [a])).failed X = (dispatched before).failed X

/-- No `logoutSuccess` comes while an `isLogged` request is the latest action of
its family. -/
def NoLogoutWhileIsLogged (actions : List Action) : Prop :=
  ∀ before after, actions = before ++ .logoutSuccess :: after →
    latest .isLogged before ≠ some .request

theorem NoLogoutWhileIsLogged.of_concat {actions : List Action} {a : Action}
    (clear : NoLogoutWhileIsLogged (actions ++ [a])) : NoLogoutWhileIsLogged actions :=
  fun before after split => clear before (after ++ [a]) (by simp [split])

/-- Where no logout interferes, the in-progress flags are right. -/
theorem inProgress_dispatched {actions : List Action}
    (clear : NoLogoutWhileIsLogged actions) (X : Family) :
    (dispatched actions).inProgress X = true ↔ latest X actions = some .request := by
  induction actions using List.reverseRecOn with
  | nil => cases X <;> simp [dispatched, initialState, RootState.inProgress,
      WelcomeState.initialState, PortalState.initialState]
  | append_singleton actions a ih =>
      have earlier := ih clear.of_concat
      rw [dispatched_concat, inProgress_reducer, latest_concat]
      by_cases own : a.family = X
      · simp [own]
      · rw [if_neg own, if_neg own]
        by_cases logout : X = .isLogged ∧ a = .logoutSuccess
        · rcases logout with ⟨rfl, rfl⟩
          have idle := clear actions [] rfl
          simp [idle]
        · rw [if_neg logout]
          exact earlier

/-- Where no action moves another family's flag, the in-progress flags are right
too: the frame alone rules the interference out. -/
theorem inProgress_of_frame (actions : List Action)
    (frame : ∀ before a after, actions = before ++ a :: after → ∀ X, a.family ≠ X →
      (dispatched (before ++ [a])).inProgress X = (dispatched before).inProgress X)
    (X : Family) :
    (dispatched actions).inProgress X = true ↔ latest X actions = some .request := by
  induction actions using List.reverseRecOn with
  | nil => cases X <;> simp [dispatched, initialState, RootState.inProgress,
      WelcomeState.initialState, PortalState.initialState]
  | append_singleton actions a ih =>
      have earlier := ih fun before b after split =>
        frame before b (after ++ [a]) (by simp [split])
      by_cases own : a.family = X
      · rw [dispatched_concat, inProgress_reducer, latest_concat]
        simp [own]
      · rw [frame actions a [] rfl X own, latest_concat, if_neg own]
        exact earlier

/-- **The flags tell the history exactly when** no redirect has ended and no
logout succeeds while an `isLogged` request is pending. -/
theorem flagsTellHistory_iff (actions : List Action) :
    FlagsTellHistory actions ↔
      (∀ a ∈ actions, a.family = .ecdRedirect → a.phase = .request) ∧
        NoLogoutWhileIsLogged actions := by
  constructor
  · intro tell
    refine ⟨fun a member own => ?_, fun before after split pending => ?_⟩
    · -- the latest terminal action of the redirect is read with the wrong polarity
      by_contra terminal
      have actual := failed_dispatched actions .ecdRedirect
      rw [tell.failed .ecdRedirect] at actual
      rcases latestTerminal_of_mem member own terminal with success | fail
      · simp [success] at actual
      · simp [fail] at actual
    · -- the flag of the pending `isLogged` request is up before the logout and down after it
      have up := (inProgress_of_frame before (fun before' b after' inner X other =>
        (tell.frame before' b (after' ++ .logoutSuccess :: after)
          (by simp [split, inner]) X other).1) .isLogged).mpr pending
      have same := (tell.frame before .logoutSuccess after split .isLogged (by decide)).1
      rw [dispatched_concat, inProgress_reducer, up] at same
      simp [Action.family] at same
  · intro condition
    rcases condition with ⟨noEnd, clear⟩
    refine ⟨inProgress_dispatched clear, fun X => ?_, fun before a after split X other => ?_⟩
    · rw [failed_dispatched]
      by_cases redirect : X = .ecdRedirect
      · subst redirect
        have none : latestTerminal .ecdRedirect actions = none := by
          rw [latestTerminal, Option.map_eq_none_iff, List.getLast?_eq_none_iff,
            List.filter_eq_nil_iff]
          intro a member terminal
          obtain ⟨own, ended⟩ := of_decide_eq_true terminal
          exact ended (noEnd a member own)
        simp [none]
      · simp [redirect]
    · have notOwn : ¬ (a.family = X ∧ a.phase ≠ .request) := fun own => other own.1
      rw [dispatched_concat, inProgress_reducer, failed_reducer, if_neg other, if_neg notOwn]
      refine ⟨?_, rfl⟩
      by_cases logout : X = .isLogged ∧ a = .logoutSuccess
      · rcases logout with ⟨rfl, rfl⟩
        -- the flag is already down, so clearing it changes nothing
        have idle := clear before after split
        have beforeClear : NoLogoutWhileIsLogged before := fun before' after' inner =>
          clear before' (after' ++ .logoutSuccess :: after) (by simp [split, inner])
        have down := (inProgress_dispatched beforeClear .isLogged).not.mpr idle
        rw [if_pos ⟨rfl, rfl⟩]
        simpa using down
      · rw [if_neg logout]

/-- A redirect that failed leaves `redirectFail` down. -/
theorem not_flagsTellHistory_redirect :
    ¬ FlagsTellHistory [.ecdRedirect (.object []), .ecdRedirectFail] := by
  intro tell
  have actual : (dispatched [.ecdRedirect (.object []), .ecdRedirectFail]).failed .ecdRedirect =
      false := by decide
  have expected := (tell.failed .ecdRedirect).mpr (by decide)
  rw [actual] at expected
  cases expected

end GAMember
