import GAMember.Cloud.Database

/-!
# Overlapping refreshes of one user

Runs of `ecdRedirect$` that overlap may each be issued a token pair, and each
writes its pair when its own answer arrives. The record is therefore never a
mix of two pairs, but the pair it holds is the one written last, which need not
be the one issued last.
-/

namespace GAMember

/-- A step of a system in which only the portal of one user is opened: nobody
logs in. -/
def OnlyRedirects (email : String) : Label Request Eff Answer → Prop
  | .start (.login _) => False
  | .start (.ecdRedirect user) => user.IsUser email
  | _ => True

section

variable (ls : List (Label Request Eff Answer))

/-- The runs that are issued a pair, in the order the server issues them. -/
def issuers : List Nat :=
  ls.filterMap fun
    | .act i e a => (issuedPair [(e, a)]).map fun _ => i
    | _ => none

/-- The runs whose write reaches the database, in the order they do. -/
def writers : List Nat := ls.filterMap writer?

/-- The pair a run is issued. -/
def pairOf (i : Nat) : Option (Val × Val) := issuedPair (ls.filterMap (Label.at? i))

/-- The tokens a record has after the write of a run, or has had from the start. -/
def tokensAfter (original : Val) : Option Nat → Option (Val × Val)
  | none => some (recordTokens original)
  | some i => (pairOf ls i).map fun pair => (pair.1.stored, pair.2.stored)

end

/-- Where the record of an email is. -/
def recordPath (email : String) : List String := segments ("/users/" ++ replaceDots email)

/-- When no run is in flight, the tokens are what they were, or the pair that the
server issued last. -/
def TokensLastIssued (email : String) (db : Val) (ls : List (Label Request Eff Answer))
    (c : Conf Val Request Eff Answer) : Prop :=
  c.quiet = true →
    some (recordTokens (c.world.atPath (recordPath email))) =
      tokensAfter ls (db.atPath (recordPath email)) (issuers ls).getLast?

section

variable {base64 : String → String} {db : Val} {ls : List (Label Request Eff Answer)}
  {c c' : Conf Val Request Eff Answer} {l : Label Request Eff Answer} {i : Nat}

/-- A run keeps the pair it was issued. -/
theorem pairOf_concat {pair : Val × Val} (issued : pairOf ls i = some pair)
    (l : Label Request Eff Answer) : pairOf (ls ++ [l]) i = some pair := by
  unfold pairOf issuedPair at issued ⊢
  rw [List.filterMap_append, List.findSome?_append, issued]
  rfl

theorem tokensAfter_concat {original : Val} {last : Option Nat} {tokens : Val × Val}
    (after : some tokens = tokensAfter ls original last) (l : Label Request Eff Answer) :
    some tokens = tokensAfter (ls ++ [l]) original last := by
  cases last with
  | none => exact after
  | some i =>
    obtain ⟨pair, issued, rfl⟩ := Option.map_eq_some_iff.mp after.symm
    simp only [tokensAfter, pairOf_concat issued l, Option.map_some]

/-- The tokens in a reachable state: those of the run that wrote last. -/
theorem tokens_eq {email : String} (taken : (cloud base64).run (.initial db) ls = some c)
    (own : ∀ l ∈ ls, OnlyRedirects email l) :
    some (recordTokens (c.world.atPath (recordPath email))) =
      tokensAfter ls (db.atPath (recordPath email)) (writers ls).getLast? := by
  refine Machine.run_induction (m := cloud base64) (c := .initial db)
    (motive := fun ls d => (∀ l ∈ ls, OnlyRedirects email l) →
      some (recordTokens (d.world.atPath (recordPath email))) =
        tokensAfter ls (db.atPath (recordPath email)) (writers ls).getLast?)
    (fun _ => rfl) ?_ taken own
  intro ls d l d' before ih step own
  have earlier : ∀ l ∈ ls, OnlyRedirects email l := fun l' member =>
    own l' (List.mem_append_left _ member)
  cases wrote : Wrote l with
  | false =>
    have same : writers (ls ++ [l]) = writers ls := by
      have none : writer? l = none := by simpa [Wrote] using wrote
      simp [writers, none]
    rw [cloud_world step wrote, same]
    exact tokensAfter_concat (ih earlier) l
  | true =>
    obtain ⟨i, text, v, w, rfl⟩ := wrote_iff.mp wrote
    obtain ⟨t, here, write, -, world⟩ := cloud_write before step
    have started := earlier _ (Machine.start_mem before here)
    have last : (writers (ls ++ [.act i (.set text v) (.returns w)])).getLast? = some i := by
      simp [writers, writer?]
    rw [world, last]
    cases tag : t.tag with
    | ecdRedirect user =>
      rw [tag] at write started
      rcases write with ⟨s, name, access, refresh, field, rfl, rfl, issued⟩
      cases started s field
      rw [Machine.hist_eq before here] at issued
      rw [recordPath, Val.atPath_setAt_self, recordTokens_stored, tokensAfter,
        pairOf_concat issued]
      rfl
    | login navigation =>
      rw [tag] at started
      exact started.elim
    | isLogged navigation => rw [tag] at write; exact write.elim
    | logout navigation => rw [tag] at write; exact write.elim

end

/-- **The record holds the pair written last**, whole, or is as it was, in every
reachable state. Where the run that writes last is the one that was issued its pair
last, that is the pair issued last. -/
theorem tokens_lastWritten (base64 : String → String) (db : Val) (email : String)
    (ls : List (Label Request Eff Answer)) (c : Conf Val Request Eff Answer)
    (taken : (cloud base64).run (.initial db) ls = some c)
    (own : ∀ l ∈ ls, OnlyRedirects email l) :
    some (recordTokens (c.world.atPath (recordPath email))) =
        tokensAfter ls (db.atPath (recordPath email)) (writers ls).getLast? ∧
      ((writers ls).getLast? = (issuers ls).getLast? → TokensLastIssued email db ls c) := by
  have tokens := tokens_eq taken own
  exact ⟨tokens, fun last _ => last ▸ tokens⟩

/-! ## A pair rolled back -/

/-- Run `i` reads the record, and the server rejects its access token. -/
def rejected (i : Nat) : List (Label Request Eff Answer) :=
  [.start (.ecdRedirect annUser),
    .act i (.ref "/users/ann@x,org") (.returns .undefined),
    .act i (.value "/users/ann@x,org") (.returns (.object [("email", .str "ann@x.org"),
      ("name", .str "Ann"), ("accessToken", .str "a0"), ("refreshToken", .str "r0")])),
    .act i (.post "oauth/check_token?token=a0" .null (checkTokenOpts base64Client)) .throws]

/-- The server issues a pair to run `i`. -/
def issued (i : Nat) (access refresh : String) : Label Request Eff Answer :=
  .act i (.post "oauth/token" (.str "grant_type=refresh_token&refresh_token=r0") tokenOpts)
    (.returns (.object [("data", .object [("access_token", .str access),
      ("refresh_token", .str refresh)])]))

/-- Run `i` opens the link and stores its pair. -/
def stores (i : Nat) (access refresh : String) : List (Label Request Eff Answer) :=
  [.act i (.openURL (ecdLink (.str access))) (.returns .undefined),
    .act i (.set "/users/ann@x,org" (.object [("email", .str "ann@x.org"), ("name", .str "Ann"),
      ("accessToken", .str access), ("refreshToken", .str refresh)])) (.returns .undefined)]

/-- Two runs are issued pairs, and the answer to the first one arrives last. -/
def overtakenRun : List (Label Request Eff Answer) :=
  rejected 0 ++ rejected 1 ++ [issued 0 "a1" "r1", issued 1 "a2" "r2"] ++
    stores 1 "a2" "r2" ++ stores 0 "a1" "r1"

def staleDatabase : Val :=
  .object [("users", .object [("ann@x,org", .object [("email", .str "ann@x.org"),
    ("name", .str "Ann"), ("accessToken", .str "a0"), ("refreshToken", .str "r0")])])]

theorem overtakenRun_possible :
    ((cloud base64Client).run (.initial staleDatabase) overtakenRun).isSome = true := by
  decide +kernel

theorem tokens_lastWritten_overtakenRun : ∃ c : Conf Val Request Eff Answer,
    (cloud base64Client).run (.initial staleDatabase) overtakenRun = some c ∧
    some (recordTokens (c.world.atPath (recordPath "ann@x.org"))) =
        tokensAfter overtakenRun (staleDatabase.atPath (recordPath "ann@x.org"))
          (writers overtakenRun).getLast? ∧
      ((writers overtakenRun).getLast? = (issuers overtakenRun).getLast? →
        TokensLastIssued "ann@x.org" staleDatabase overtakenRun c) := by
  obtain ⟨c, taken⟩ := Option.isSome_iff_exists.mp overtakenRun_possible
  exact ⟨c, taken, tokens_lastWritten base64Client staleDatabase "ann@x.org" overtakenRun c taken
    (by simp [overtakenRun, rejected, issued, stores, OnlyRedirects, Val.IsUser, annUser,
      Val.object])⟩

/-- The record ends up with the pair that was issued first. -/
theorem not_tokensLastIssued_overtakenRun :
    ¬ ∀ c, (cloud base64Client).run (.initial staleDatabase) overtakenRun = some c →
      TokensLastIssued "ann@x.org" staleDatabase overtakenRun c := by
  intro every
  obtain ⟨c, taken⟩ := Option.isSome_iff_exists.mp overtakenRun_possible
  have last := every c taken
  have found : ((cloud base64Client).run (.initial staleDatabase) overtakenRun).map
      (fun c => (c.quiet, recordTokens (c.world.atPath (recordPath "ann@x.org")))) =
        some (true, .str "a1", .str "r1") := by decide +kernel
  simp only [taken, Option.map_some, Option.some.injEq, Prod.mk.injEq] at found
  have stored := last found.1
  rw [found.2] at stored
  exact absurd stored (by decide +kernel)

end GAMember
