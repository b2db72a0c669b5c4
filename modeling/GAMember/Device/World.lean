import GAMember.Saga.Effect

/-!
# One device

The state the welcome sagas act on: the user the Google SDK holds, the redux
store, and the screen the switch navigator shows. `Device.after` is what an
answered effect does to it. The SDK keeps at most one current user: a successful
`signIn` sets it and a successful `signOut` clears it.
-/

namespace GAMember

structure Device where
  session : Option Val
  store : RootState
  screen : Screen
  deriving DecidableEq

/-- The user in the result of a sign-in: `result.user`, if there is one. -/
def signedInUser (result : Val) : Option Val :=
  (result.prop "user").filter Val.truthy

namespace Device

/-- The app has just been started, on a device whose SDK may still hold a user. -/
def initial (session : Option Val) : Device := ⟨session, .initialState, .welcome⟩

/-- The effect of one answered call on the device. -/
def after (d : Device) (e : Eff) (a : Answer) : Device :=
  match e, a with
  | .put action, _ => { d with store := d.store.reducer action }
  | .navigate _ screen, .returns _ => { d with screen := screen }
  | .signIn, .returns result => { d with session := (signedInUser result).or d.session }
  | .signOut, .returns _ => { d with session := none }
  | _, _ => d

/-- The device after a whole trace. -/
def afterTrace (d : Device) (tr : Trace) : Device :=
  tr.foldl (fun d step => d.after step.1 step.2) d

@[simp] theorem afterTrace_nil (d : Device) : d.afterTrace [] = d := rfl

@[simp] theorem afterTrace_cons (d : Device) (step : Eff × Answer) (tr : Trace) :
    d.afterTrace (step :: tr) = (d.after step.1 step.2).afterTrace tr := rfl

@[simp] theorem after_put (d : Device) (action : Action) (a : Answer) :
    d.after (.put action) a = { d with store := d.store.reducer action } := by
  cases a <;> rfl

@[simp] theorem after_throws_screen (d : Device) (e : Eff) :
    (d.after e .throws).screen = d.screen := by
  cases e <;> rfl

/-- Only a dispatch changes the store. -/
theorem after_store {d : Device} {e : Eff} {a : Answer} (other : e.dispatched? = none) :
    (d.after e a).store = d.store := by
  cases e <;> cases a <;> first | rfl | cases other

/-- Only a navigation that succeeds changes the screen. -/
theorem after_screen {d : Device} {e : Eff} {a : Answer}
    (other : ∀ navigation screen, e ≠ .navigate navigation screen) :
    (d.after e a).screen = d.screen := by
  cases e <;> cases a <;> first | rfl | exact absurd rfl (other _ _)

end Device

end GAMember
