import GAMember.Cloud.Database
import Mathlib.Data.List.Forall2

/-!
# Where the record of an email is

`login$` and `ecdRedirect$` escape the dots of an email and use the rest of it as it
is, in a path that is split at its slashes and as a key of the object that is set at
`/users`. An email with a character that is special in a path names no record, or
one in the wrong place, and two emails that differ in dots and commas only name the
same one.

`addressed_iff` says which emails name one record each.
-/

namespace GAMember

open Saga

def Fields.keys : Fields → List String
  | .nil => []
  | .cons k _ rest => k :: rest.keys

/-- The places a step of a saga reads or writes: the path of a read or a write, and
the children that are set at `/users` all at once. -/
def Eff.places : Eff → List (List String)
  | .value path => [segments path]
  | .set path v =>
      if path = "/users" then v.fields.keys.map fun key => segments path ++ [key]
      else [segments path]
  | _ => []

/-- All places a saga ever reads or writes, as long as the answers are admitted, are
one child of `/users`. -/
def Addresses (ok : Trace → Eff → Answer → Prop) (key : String) (saga : Saga Unit) : Prop :=
  Prog.Along ok (fun _ rest => ∀ e, rest.head? = some e → ∀ place ∈ e.places,
    place = ["users", key]) [] saga

/-- Whoever signs in has this email. -/
def SignsIn (email : String) (_ : Trace) (e : Eff) (a : Answer) : Prop :=
  e = .signIn → ∀ user, a.prop "user" = some user → user.IsUser email

/-- Both sagas use one child of `/users`, with a key the database admits, for the
record of an email. -/
structure OneChild (email key : String) : Prop where
  valid : validKey key = true
  login : ∀ navigation, Addresses (SignsIn email) key (loginSaga navigation)
  redirect : ∀ base64 user, user.IsUser email →
    Addresses (fun _ _ _ => True) key (ecdRedirectSaga base64 user)

/-- Each of the emails has a child of its own. -/
def Addressed (email email' : String) : Prop :=
  ∃ key key', OneChild email key ∧ OneChild email' key' ∧ (email ≠ email' → key ≠ key')

/-- The email is not empty and has none of the characters that are special in a path,
apart from dots. -/
def admittedEmail (email : String) : Bool :=
  email ≠ "" && email.toList.all fun c => c ∉ ['#', '$', '[', ']', '/']

/-- The emails differ in dots and commas at most. -/
def SameUpToDots (email email' : String) : Prop :=
  List.Forall₂ (fun c c' => c = c' ∨ (c ∈ ['.', ','] ∧ c' ∈ ['.', ','])) email.toList email'.toList

/-! ## The escape -/

theorem validKey_replaceDots (email : String) :
    validKey (replaceDots email) = admittedEmail email := by
  have empty : replaceDots email = "" ↔ email = "" := by
    rw [← String.toList_eq_nil_iff, ← String.toList_eq_nil_iff, replaceDots, String.toList_ofList,
      List.map_eq_nil_iff]
  have special (c : Char) : (if c = '.' then ',' else c) ∉ ['.', '#', '$', '[', ']', '/'] ↔
      c ∉ ['#', '$', '[', ']', '/'] := by
    by_cases dot : c = '.'
    · subst dot
      decide
    · simp [dot]
  rw [Bool.eq_iff_iff, validKey, admittedEmail, Bool.and_eq_true, Bool.and_eq_true,
    List.all_eq_true, List.all_eq_true]
  refine and_congr (by simp [empty]) ?_
  rw [replaceDots, String.toList_ofList]
  simp only [List.forall_mem_map, decide_eq_true_eq, special]

theorem replaceDots_eq_iff {email email' : String} :
    replaceDots email = replaceDots email' ↔ SameUpToDots email email' := by
  have escape (c c' : Char) : (if c = '.' then ',' else c) = (if c' = '.' then ',' else c') ↔
      c = c' ∨ (c ∈ ['.', ','] ∧ c' ∈ ['.', ',']) := by
    by_cases dot : c = '.'
    · by_cases dot' : c' = '.'
      · simp [dot, dot']
      · simp [dot, dot', eq_comm]
    · by_cases dot' : c' = '.'
      · simp [dot, dot']
      · simp [dot, dot']
        intro first second
        rw [first, second]
  rw [replaceDots, replaceDots, String.ofList_inj, ← List.forall₂_eq_eq_eq,
    List.forall₂_map_left_iff, List.forall₂_map_right_iff]
  simp only [escape]
  rfl

/-! ## The places -/

section

variable {email key : String}

/-- The step reads or writes something else than this child of `/users`. -/
def Eff.misplaced (key : String) (e : Eff) : Bool := e.places.any (· ≠ ["users", key])

theorem places_of_not_misplaced {e : Eff} (placed : e.misplaced key = false) :
    ∀ place ∈ e.places, place = ["users", key] := by
  intro place member
  simpa using List.any_eq_false.mp placed place member

theorem addresses_of_avoids {ok : Trace → Eff → Answer → Prop} {past : Trace} {saga : Saga Unit}
    (avoids : saga.Avoids (Eff.misplaced key)) :
    Prog.Along ok (fun _ rest => ∀ e, rest.head? = some e → ∀ place ∈ e.places,
      place = ["users", key]) past saga :=
  avoids.along_head (fun _ _ quiet e here => places_of_not_misplaced (quiet e here)) past

theorem misplaced_loginUsers (email name : Val) :
    (Eff.set "/users" (loginUsers key email name)).misplaced key = false := by
  simp [Eff.misplaced, Eff.places, loginUsers, Val.object, Val.fields, Fields.keys]

theorem login_addresses (placed : segments ("/users/" ++ replaceDots email) = ["users", key])
    (same : replaceDots email = key) (navigation : Navigation) :
    Addresses (SignsIn email) key (loginSaga navigation) := by
  subst same
  simp only [Addresses, loginSaga, await, Prog.call_bind, Prog.tryCatch_call, Prog.along_call]
  refine ⟨by simp [Eff.places], fun a admitted => ?_⟩
  have own := admitted rfl
  refine addresses_of_avoids (Prog.Avoids.tryCatch ?_ (put_avoids rfl))
  cases a with
  | throws => trivial
  | returns result =>
  simp only [Prog.ret_bind, Saga.prop]
  cases field : result.prop "user" with
  | none => trivial
  | some user =>
  rw [ofOption_some, Prog.ret_bind]
  split
  · refine (put_avoids rfl).bind fun _ => (await_avoids rfl).bind fun _ => ?_
    cases hasEmail : user.prop "email" with
    | none => trivial
    | some v =>
    rw [ofOption_some, Prog.ret_bind]
    cases escaped : v.replaceDots with
    | none => trivial
    | some key =>
    obtain ⟨s, rfl, rfl⟩ := Val.replaceDots_eq_some.mp escaped
    cases own user field s hasEmail
    refine once_avoids rfl (by simp [Eff.misplaced, Eff.places, placed]) rfl (fun snapshot => ?_)
      (Prog.avoids_ret _ ())
    split
    · exact (ofOption_avoids _).bind fun name =>
        (await_avoids (misplaced_loginUsers _ name)).bind fun _ => Prog.avoids_ret _ ()
    · exact Prog.avoids_ret _ ()
  · exact Prog.avoids_ret _ ()

/-- A read of `ecdRedirect$` is one of its user's record. -/
theorem redirect_reads (base64 : String → String) {user : Val} (own : user.IsUser email)
    (placed : segments ("/users/" ++ replaceDots email) = ["users", key]) :
    (ecdRedirectSaga base64 user).Avoids fun e =>
      match e with
      | .set _ _ => false
      | e => e.misplaced key := by
  cases named : (user.prop "email").bind Val.replaceDots with
  | none =>
    rw [ecdRedirectSaga_of_noKey base64 user named]
    exact put_avoids rfl
  | some key' =>
  rw [ecdRedirectSaga_of_key base64 user named]
  obtain ⟨v, hasEmail, escaped⟩ := Option.bind_eq_some_iff.mp named
  obtain ⟨s, rfl, rfl⟩ := Val.replaceDots_eq_some.mp escaped
  cases own s hasEmail
  refine Prog.Avoids.tryCatch ?_ (put_avoids rfl)
  exact once_avoids rfl (by simp [Eff.misplaced, Eff.places, placed]) rfl
    (fun token => ecdCallback_avoids base64 user _ token (fun _ _ _ => rfl) (fun _ => rfl)
      fun _ _ => rfl) (Prog.avoids_ret _ ())

theorem path_ne_users (key : String) : "/users/" ++ key ≠ "/users" := by
  intro same
  have chars : ("/users/" ++ key).toList = "/users".toList := congrArg _ same
  rw [String.toList_append] at chars
  simp at chars

theorem redirect_addresses (placed : segments ("/users/" ++ replaceDots email) = ["users", key])
    (base64 : String → String) {user : Val} (own : user.IsUser email) :
    Addresses (fun _ _ _ => True) key (ecdRedirectSaga base64 user) := by
  have reads : Prog.Along (fun _ _ _ => True) _ [] (ecdRedirectSaga base64 user) :=
    (redirect_reads base64 own placed).along_head (fun _ _ quiet => quiet) []
  apply (reads.and (ecdRedirect_writes base64 user)).mono
  intro hist rest point e here
  cases e with
  | set path v =>
    obtain ⟨s, name, access, refresh, hasEmail, rfl, -, -⟩ := point.2 path v here
    cases own s hasEmail
    intro place member
    rw [Eff.places, if_neg (path_ne_users _), List.mem_singleton] at member
    exact member.trans placed
  | _ => exact places_of_not_misplaced (point.1 _ here)

/-- What `login$` writes for a new user tells the key. -/
theorem key_of_login {navigation : Navigation}
    (addresses : Addresses (SignsIn email) key (loginSaga navigation)) :
    replaceDots email = key := by
  have admitted : SignsIn email [] .signIn (.returns (.object
      [("user", .object [("email", .str email), ("name", .str "")])])) := by
    intro _ user given s hasEmail
    cases given
    cases hasEmail
    rfl
  have other {e : Eff} (ne : e ≠ .signIn) (past : Trace) (a : Answer) : SignsIn email past e a :=
    fun same => absurd same ne
  simp only [Addresses, loginSaga, await, Prog.call_bind, Prog.tryCatch_call,
    Prog.along_call] at addresses
  -- the SDK gives the user, the store and the navigator take it, the record is absent
  have signedIn := addresses.2 _ admitted
  have shown := (signedIn.2 (.returns .undefined) (other (by simp) _ _)).2 (.returns .undefined)
    (other (by simp) _ _)
  have absent := (shown.2 (.returns .undefined) (other (by simp) _ _)).2 (.returns .null)
    (other (by simp) _ _)
  have written := absent.here _ rfl
  simpa [Eff.places, loginUsers, Val.object, Val.fields, Fields.keys] using written

end

theorem oneChild_iff {email key : String} :
    OneChild email key ↔ admittedEmail email = true ∧ key = replaceDots email := by
  constructor
  · intro child
    have same := key_of_login (child.login ⟨.welcome⟩)
    subst same
    exact ⟨(validKey_replaceDots email).symm.trans child.valid, rfl⟩
  · intro admitted
    rcases admitted with ⟨admitted, rfl⟩
    have valid := (validKey_replaceDots email).trans admitted
    have placed := segments_record valid
    exact ⟨valid, login_addresses placed rfl, fun base64 user own =>
      redirect_addresses placed base64 own⟩

/-- **Emails have records of their own exactly when** they are admitted and differ in
more than dots and commas. -/
theorem addressed_iff (email email' : String) :
    Addressed email email' ↔
      admittedEmail email = true ∧ admittedEmail email' = true ∧
        (email ≠ email' → ¬ SameUpToDots email email') := by
  simp only [Addressed, oneChild_iff, ← replaceDots_eq_iff]
  constructor
  · intro addressed
    rcases addressed with ⟨key, key', ⟨admitted, rfl⟩, ⟨admitted', rfl⟩, apart⟩
    exact ⟨admitted, admitted', apart⟩
  · intro condition
    rcases condition with ⟨admitted, admitted', apart⟩
    exact ⟨_, _, ⟨admitted, rfl⟩, ⟨admitted', rfl⟩, apart⟩

/-- An email with a number sign has no record. -/
theorem not_addressed_numberSign : ¬ Addressed "ann#1@x.org" "bob@x.org" := by
  intro addressed
  rcases addressed with ⟨key, key', child, -, -⟩
  exact absurd (oneChild_iff.mp child).1 (by decide)

example : replaceDots "ann.b@x.org" = replaceDots "ann,b@x,org" := by decide

end GAMember
