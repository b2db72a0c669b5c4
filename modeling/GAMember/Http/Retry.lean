import GAMember.Http.Options
import Mathlib.Order.Bounds.Basic
import Mathlib.Order.Nat

/-!
# Sending a request again

The response interceptor of the HTTP client sends a request again when the server
fails with a status from 500 on. It counts the retries in the config of the
attempt that failed and calls `request` with that same config.

Axios is not part of the app. `Axios` is the merging of an attempt's config with
what the client relies on; the config of a failed attempt is found in its error.

* `Chain`: the attempts of one request, from answer to answer.
* `Progress`: the same as far as a server can see it, a number of retries.
* `delivered_iff`: how many attempts there are.
-/

namespace GAMember

namespace Val

/-- The number a value counts as in a comparison, none for `NaN`. The counters
compared here are numbers, so texts are not converted. -/
def toNumber : Val → Option Int
  | .null => some 0
  | .bool b => some (if b then 1 else 0)
  | .num n => some n
  | _ => none

/-- `v < w`. -/
def less (v w : Val) : Bool :=
  match v.toNumber, w.toNumber with
  | some m, some n => m < n
  | _, _ => false

/-- `v + 1`. -/
def succ : Val → Val
  | .num n => .num (n + 1)
  | .bool b => .num (if b then 2 else 1)
  | .null => .num 1
  | v => .str (v.toText ++ "1")

@[simp] theorem less_num (m n : Int) : (Val.num m).less (.num n) = decide (m < n) := rfl

@[simp] theorem succ_num (n : Int) : (Val.num n).succ = .num (n + 1) := rfl

end Val

/-! ## The interceptors -/

/-- What comes back for an attempt: a response, or an error with the status of
the server, if the server answered at all. -/
inductive HttpAnswer
  | success (response : Val)
  | failure (status : Option Int)
  deriving DecidableEq

/-- An error with a status from 500 on. -/
def HttpAnswer.serverError : HttpAnswer → Bool
  | .failure (some status) => 500 ≤ status
  | _ => false

/-- `setAuthHeaderInterceptor`: the config, or a copy with a copy of its headers. -/
def setAuthHeaderInterceptor (config : Fields) : Fields :=
  if (config.get "withAuth").truthy then
    (Fields.nil.assign config).insert "headers" (.obj (config.get "headers").own)
  else config

/-- The response interceptor: the config of the failed attempt as it is mutated
and sent again, `none` where the answer is passed on. -/
def retryAfter (settings config : Fields) (a : HttpAnswer) : Option Fields :=
  if a.serverError && (settings.get "retryRequests").truthy then
    let count := config.get "__retryCount"
    if !count.truthy || count.less (settings.get "retryCount") then
      some ((config.insert "__isRetryRequest" (.bool true)).insert "__retryCount"
        (if count.truthy then count.succ else .num 1))
    else none
  else none

/-- The keys the response interceptor writes. -/
def bookkeeping : List String := ["__isRetryRequest", "__retryCount"]

/-- Two configs agree on everything but the bookkeeping of the retries. -/
def Alike (config config' : Fields) : Prop :=
  ∀ key, key ∉ bookkeeping → config.find? key = config'.find? key

/-- The merging of a config by axios, from the `baseURL` and the `timeout` of the
instance and the options of the call. -/
structure Axios where
  merge : Val → Val → Fields → Fields
  /-- Keys that axios does not know are copied from the options. -/
  copies : ∀ baseURL timeout options key, key ∈ bookkeeping →
    (merge baseURL timeout options).find? key = options.find? key
  /-- A config that has been merged before is merged to itself. -/
  again : ∀ baseURL timeout options config, Alike config (merge baseURL timeout options) →
    Alike (merge baseURL timeout config) (merge baseURL timeout options)
  /-- The headers are an object. -/
  headers : ∀ baseURL timeout options, ∃ fs,
    (merge baseURL timeout options).find? "headers" = some (.obj fs)

/-- What a request sees of its client: the config it was set to and the defaults
of its axios instance. -/
structure Client where
  settings : Fields
  baseURL : Val
  timeout : Val

/-- `request(type, url, data, opts)`: the config of the attempt it makes. -/
def Client.request (client : Client) (axios : Axios) (type url data opts : Val) : Fields :=
  setAuthHeaderInterceptor
    (axios.merge client.baseURL client.timeout (requestOptions type url data opts).own)

/-! ## The attempts of one request -/

/-- The state of a request: an attempt is under way, or the promise has settled. -/
inductive Chain
  | flying (config : Fields)
  | settled (a : HttpAnswer)
  deriving DecidableEq

/-- The request after an answer to the attempt under way. -/
def Chain.hear (axios : Axios) (client : Client) : Chain → HttpAnswer → Chain
  | .flying config, a =>
      match retryAfter client.settings config a with
      | some config => .flying (client.request axios (.obj config) .undefined .undefined .undefined)
      | none => .settled a
  | .settled a, _ => .settled a

/-- The request after the first `i` of the answers. -/
def Chain.after (axios : Axios) (client : Client) (first : Chain) (answers : ℕ → HttpAnswer) :
    ℕ → Chain
  | 0 => first
  | i + 1 => (first.after axios client answers i).hear axios client (answers i)

/-! ## Retries as a server sees them -/

/-- An answer, and the settings in force when it arrived. -/
structure Heard where
  answer : HttpAnswer
  retryRequests : Val
  retryCount : Val
  deriving DecidableEq

def Client.heard (client : Client) (a : HttpAnswer) : Heard :=
  ⟨a, client.settings.get "retryRequests", client.settings.get "retryCount"⟩

/-- The request is sent again after so many retries. -/
def Heard.retried (h : Heard) (retries : ℕ) : Bool :=
  h.answer.serverError && h.retryRequests.truthy &&
    (retries = 0 || (Val.num retries).less h.retryCount)

/-- A request as the server sees it: so many retries have been made, or so many
attempts, and then it settled. -/
inductive Progress
  | sending (retries : ℕ)
  | settled (attempts : ℕ) (a : HttpAnswer)
  deriving DecidableEq

def Progress.hear : Progress → Heard → Progress
  | .sending retries, h =>
      if h.retried retries then .sending (retries + 1) else .settled (retries + 1) h.answer
  | .settled attempts a, _ => .settled attempts a

/-- The config says that so many retries have been made. -/
def Counts (config : Fields) (retries : ℕ) : Prop :=
  config.get "__retryCount" = if retries = 0 then .undefined else .num retries

section

variable {axios : Axios} {client : Client} {config : Fields} {retries : ℕ}

theorem find?_setAuthHeaderInterceptor_of_ne {key : String} (ne : "headers" ≠ key) :
    (setAuthHeaderInterceptor config).find? key = config.find? key := by
  unfold setAuthHeaderInterceptor
  split
  · rw [Fields.find?_insert_of_ne ne, Fields.find?_assign, Fields.find?_nil, Option.or_none]
  · rfl

/-- Where the headers are an object, the copy of the config is the same. -/
theorem find?_setAuthHeaderInterceptor {fs : Fields} (headers : config.find? "headers" = some (.obj fs))
    (key : String) : (setAuthHeaderInterceptor config).find? key = config.find? key := by
  by_cases same : "headers" = key
  · subst same
    unfold setAuthHeaderInterceptor
    split
    · rw [Fields.find?_insert_self, headers, Fields.get, headers]
      rfl
    · rfl
  · exact find?_setAuthHeaderInterceptor_of_ne same

theorem find?_request (type url data opts : Val) (key : String) :
    (client.request axios type url data opts).find? key =
      (axios.merge client.baseURL client.timeout (requestOptions type url data opts).own).find?
        key := by
  obtain ⟨fs, headers⟩ := axios.headers client.baseURL client.timeout
    (requestOptions type url data opts).own
  exact find?_setAuthHeaderInterceptor headers key

/-- An attempt has the bookkeeping of the options it is made from. -/
theorem counts_request {type url data opts : Val}
    (counts : Counts (requestOptions type url data opts).own retries) :
    Counts (client.request axios type url data opts) retries := by
  rw [Counts, Fields.get, find?_request, axios.copies _ _ _ _ (by decide)]
  exact counts

/-- **The interceptor reads and writes a number of retries.** -/
theorem retryAfter_eq (client : Client) (counts : Counts config retries) (a : HttpAnswer) :
    retryAfter client.settings config a =
      if (client.heard a).retried retries then
        some ((config.insert "__isRetryRequest" (.bool true)).insert "__retryCount"
          (.num (retries + 1)))
      else none := by
  unfold retryAfter Heard.retried Client.heard
  rw [counts]
  cases a.serverError && (client.settings.get "retryRequests").truthy with
  | false => simp
  | true =>
    cases retries with
    | zero => simp
    | succ n =>
      have truthy : (Val.num ((n : Int) + 1)).truthy = true := by
        simp only [Val.truthy, bne_iff_ne]
        omega
      simp [truthy]

/-- Counting a retry touches nothing but the bookkeeping. -/
theorem alike_counted (count : Val) :
    Alike ((config.insert "__isRetryRequest" (.bool true)).insert "__retryCount" count) config := by
  intro key other
  simp only [bookkeeping, List.mem_cons, List.not_mem_nil, or_false, not_or] at other
  rw [Fields.find?_insert_of_ne (Ne.symm other.2), Fields.find?_insert_of_ne (Ne.symm other.1)]

theorem counts_counted (config : Fields) (retries : ℕ) :
    Counts ((config.insert "__isRetryRequest" (.bool true)).insert "__retryCount"
      (.num (retries + 1))) (retries + 1) := by
  rw [Counts, Fields.get, Fields.find?_insert_self, if_neg (Nat.succ_ne_zero retries)]
  rfl

/-- The config of an attempt sent again is made from the mutated one. -/
theorem request_again (config : Fields) :
    requestOptions (.obj config) .undefined .undefined .undefined = .obj config := rfl

/-! ## The attempts carry the same request -/

/-- The attempts of a request as the server sees them: the number of retries is
the one in the config, and the config is that of the first attempt otherwise. -/
def Follows (first : Fields) : Chain → Progress → Prop
  | .flying config, .sending retries => Counts config retries ∧ Alike config first
  | .settled a, .settled _ a' => a = a'
  | _, _ => False

theorem follows_first {type url data opts : Val} (fresh :
    (requestOptions type url data opts).own.find? "__retryCount" = none) :
    Follows (client.request axios type url data opts)
      (.flying (client.request axios type url data opts)) (.sending 0) := by
  refine ⟨counts_request ?_, fun _ _ => rfl⟩
  rw [Counts, Fields.get, fresh]
  rfl

/-- An answer takes both to the same place: the config that is sent again was
merged before, so merging it again changes nothing. -/
theorem follows_hear {type url data opts : Val} {chain : Chain} {progress : Progress}
    (follows : Follows (client.request axios type url data opts) chain progress) (a : HttpAnswer) :
    Follows (client.request axios type url data opts) (chain.hear axios client a)
      (progress.hear (client.heard a)) := by
  cases chain with
  | settled b =>
    cases progress with
    | settled attempts b' => exact follows
    | sending retries => exact follows.elim
  | flying config =>
  cases progress with
  | settled attempts b => exact follows.elim
  | sending retries =>
  rcases follows with ⟨counts, alike⟩
  simp only [Chain.hear, retryAfter_eq client counts, Progress.hear]
  cases (client.heard a).retried retries with
  | false => exact rfl
  | true =>
    simp only [if_true]
    refine ⟨counts_request (counts_counted config retries), ?_⟩
    intro key other
    rw [find?_request, find?_request, request_again, Val.own_obj]
    refine axios.again _ _ _ _ (fun key other => ?_) key other
    rw [alike_counted _ key other, alike key other, find?_request]

end

/-! ## How many attempts there are -/

/-- The progress of a request under settings that stay. -/
def Progress.after (client : Client) (answers : ℕ → HttpAnswer) : ℕ → Progress
  | 0 => .sending 0
  | i + 1 => (Progress.after client answers i).hear (client.heard (answers i))

/-- The retries made when there can be at most so many. -/
def retriesMade (most : ℕ) (answers : ℕ → HttpAnswer) : ℕ :=
  Nat.find (p := fun i => (answers i).serverError = false ∨ i = most) ⟨most, Or.inr rfl⟩

/-- The most retries a client makes: the first one is made whatever the count is. -/
def Client.mostRetries (client : Client) (n : ℕ) : ℕ :=
  if (client.settings.get "retryRequests").truthy then max 1 n else 0

section

variable {client : Client} {n : ℕ} {answers : ℕ → HttpAnswer}

theorem retried_iff (budget : client.settings.get "retryCount" = .num n) {i : ℕ}
    (within : i ≤ client.mostRetries n) : (client.heard (answers i)).retried i = true ↔
      (answers i).serverError = true ∧ i ≠ client.mostRetries n := by
  unfold Client.mostRetries at within ⊢
  unfold Heard.retried Client.heard
  rw [budget]
  cases truthy : (client.settings.get "retryRequests").truthy with
  | false =>
    simp only [truthy, Bool.false_eq_true, if_false] at within ⊢
    simpa using fun _ => within
  | true =>
    simp only [truthy, if_true] at within ⊢
    simp only [Bool.and_true, Bool.and_eq_true, Bool.or_eq_true, decide_eq_true_eq,
      Val.less_num, Int.ofNat_lt]
    refine and_congr_right fun _ => ?_
    omega

theorem progress_after (budget : client.settings.get "retryCount" = .num n) (i : ℕ) :
    Progress.after client answers i =
      if i ≤ retriesMade (client.mostRetries n) answers then .sending i
      else .settled (retriesMade (client.mostRetries n) answers + 1)
        (answers (retriesMade (client.mostRetries n) answers)) := by
  have made := Nat.find_spec (p := fun i => (answers i).serverError = false ∨
    i = client.mostRetries n) ⟨_, Or.inr rfl⟩
  have most : retriesMade (client.mostRetries n) answers ≤ client.mostRetries n :=
    Nat.find_min' _ (Or.inr rfl)
  induction i with
  | zero => rfl
  | succ i ih =>
    rw [Progress.after, ih]
    rcases Nat.lt_trichotomy i (retriesMade (client.mostRetries n) answers) with early | now | late
    · rw [if_pos early.le, if_pos (Nat.succ_le_of_lt early), Progress.hear, if_pos]
      have before := Nat.find_min _ early
      simp only [not_or, Bool.not_eq_false] at before
      exact (retried_iff budget (by omega)).mpr before
    · rw [if_pos now.le, if_neg (by omega), Progress.hear, if_neg, ← now]
      · rfl
      · rw [retried_iff budget (by omega), now]
        intro both
        rcases made with answered | last
        · exact absurd (both.1.symm.trans answered) (by simp)
        · exact both.2 last
    · rw [if_neg (by omega), if_neg (by omega)]
      rfl

end

/-- The attempts a request should make: one without retries, and otherwise up to
the first answer that is no server error, or one more than `retryCount`. -/
def AttemptsDue (client : Client) (n : ℕ) (answers : ℕ → HttpAnswer) (k : ℕ) : Prop :=
  if (client.settings.get "retryRequests").truthy then
    IsLeast {i | 1 ≤ i ∧ ((answers (i - 1)).serverError = false ∨ i = n + 1)} k
  else k = 1

/-- What an attempt carries. -/
def carried : List String := ["method", "url", "params", "data", "headers"]

/-- The request is sent `k` times, each time as the first time, and settles with
the answer to the last attempt. -/
structure Delivered (axios : Axios) (client : Client) (first : Fields)
    (answers : ℕ → HttpAnswer) (k : ℕ) : Prop where
  sent : ∀ i < k, ∃ config, Chain.after axios client (.flying first) answers i = .flying config ∧
    ∀ key ∈ carried, config.find? key = first.find? key
  settled : ∀ i, k ≤ i → Chain.after axios client (.flying first) answers i =
    .settled (answers (k - 1))

section

variable (axios : Axios) (client : Client) {n : ℕ} (answers : ℕ → HttpAnswer)
  {type url data opts : Val}

theorem follows_after
    (fresh : (requestOptions type url data opts).own.find? "__retryCount" = none) (i : ℕ) :
    Follows (client.request axios type url data opts)
      (Chain.after axios client (.flying (client.request axios type url data opts)) answers i)
      (Progress.after client answers i) := by
  induction i with
  | zero => exact follows_first fresh
  | succ i ih => exact follows_hear ih (answers i)

/-- What the client does. -/
theorem delivered_retriesMade (budget : client.settings.get "retryCount" = .num n)
    (fresh : (requestOptions type url data opts).own.find? "__retryCount" = none) :
    Delivered axios client (client.request axios type url data opts) answers
      (retriesMade (client.mostRetries n) answers + 1) := by
  constructor
  · intro i early
    have follows := follows_after axios client answers fresh i
    rw [progress_after budget, if_pos (Nat.le_of_lt_succ early)] at follows
    cases chain : Chain.after axios client
        (.flying (client.request axios type url data opts)) answers i with
    | settled a =>
      rw [chain] at follows
      exact follows.elim
    | flying config =>
      rw [chain] at follows
      refine ⟨config, rfl, fun key carries => follows.2 key ?_⟩
      simp only [carried, List.mem_cons, List.not_mem_nil, or_false] at carries
      rcases carries with rfl | rfl | rfl | rfl | rfl <;> decide
  · intro i late
    have follows := follows_after axios client answers fresh i
    rw [progress_after budget, if_neg (by omega)] at follows
    cases chain : Chain.after axios client
        (.flying (client.request axios type url data opts)) answers i with
    | settled a =>
      rw [chain] at follows
      exact congrArg Chain.settled follows
    | flying config =>
      rw [chain] at follows
      exact follows.elim

variable {axios client answers}

/-- A request is delivered in one number of attempts. -/
theorem Delivered.unique {first : Fields} {k k' : ℕ} (once : Delivered axios client first answers k)
    (again : Delivered axios client first answers k') : k = k' := by
  rcases Nat.lt_trichotomy k k' with less | same | more
  · obtain ⟨config, flying, -⟩ := again.sent k less
    cases flying.symm.trans (once.settled k le_rfl)
  · exact same
  · obtain ⟨config, flying, -⟩ := once.sent k' more
    cases flying.symm.trans (again.settled k' le_rfl)

theorem retriesMade_zero : retriesMade 0 answers = 0 :=
  Nat.le_zero.mp (Nat.find_min' _ (Or.inr rfl))

theorem isLeast_retriesMade (most : ℕ) (answers : ℕ → HttpAnswer) :
    IsLeast {i | 1 ≤ i ∧ ((answers (i - 1)).serverError = false ∨ i = most + 1)}
      (retriesMade most answers + 1) := by
  constructor
  · have made := Nat.find_spec (p := fun i => (answers i).serverError = false ∨ i = most)
      ⟨most, Or.inr rfl⟩
    refine ⟨Nat.le_add_left 1 _, made.imp_right fun last => ?_⟩
    exact congrArg (· + 1) last
  · intro i due
    rcases due with ⟨positive, ends⟩
    have least : retriesMade most answers ≤ i - 1 :=
      Nat.find_min' _ (ends.imp_right fun last => by omega)
    omega

/-- The attempts due are those made with the whole budget as it is. -/
theorem attemptsDue_iff {k : ℕ} : AttemptsDue client n answers k ↔
    k = retriesMade (if (client.settings.get "retryRequests").truthy then n else 0) answers + 1 := by
  unfold AttemptsDue
  split
  · constructor
    · intro least
      exact least.unique (isLeast_retriesMade n answers)
    · intro same
      subst same
      exact isLeast_retriesMade n answers
  · rw [retriesMade_zero]

/-- The first retry is made even where none is due. -/
theorem retriesMade_eq_iff :
    retriesMade (client.mostRetries n) answers =
        retriesMade (if (client.settings.get "retryRequests").truthy then n else 0) answers ↔
      1 ≤ n ∨ (client.settings.get "retryRequests").truthy = false ∨
        (answers 0).serverError = false := by
  unfold Client.mostRetries
  cases (client.settings.get "retryRequests").truthy with
  | false => simp
  | true =>
    simp only [if_true]
    by_cases some : 1 ≤ n
    · rw [max_eq_right some]
      simp [some]
    · have none : n = 0 := by omega
      subst none
      rw [retriesMade_zero]
      simp [retriesMade]

end

/-- **A request is delivered as due exactly when** the budget is not zero, or it is
not needed: nothing is sent again, or the first answer is no server error. -/
theorem delivered_iff (axios : Axios) (client : Client) (n : ℕ) (answers : ℕ → HttpAnswer)
    (type url data opts : Val) (budget : client.settings.get "retryCount" = .num n)
    (fresh : (requestOptions type url data opts).own.find? "__retryCount" = none) :
    (∃ k, AttemptsDue client n answers k ∧
        Delivered axios client (client.request axios type url data opts) answers k) ↔
      1 ≤ n ∨ (client.settings.get "retryRequests").truthy = false ∨
        (answers 0).serverError = false := by
  have made := delivered_retriesMade axios client answers budget fresh
  rw [← retriesMade_eq_iff]
  constructor
  · intro delivered
    rcases delivered with ⟨k, due, delivered⟩
    have same := made.unique delivered
    rw [attemptsDue_iff.mp due] at same
    exact Nat.succ.inj same
  · intro same
    exact ⟨_, attemptsDue_iff.mpr (congrArg (· + 1) same), made⟩

/-! ## A client without a budget -/

/-- The headers an instance starts from. -/
def defaultHeaders : Fields :=
  .ofList [("Accept", .str "application/json, text/plain, */*"),
    ("Cache-Control", .str "no-cache")]

/-- The config an instance starts from. -/
def defaultOptions (baseURL timeout : Val) : Fields :=
  .ofList [("baseURL", baseURL), ("timeout", timeout), ("method", .str "get")]

/-- The options over the defaults, headers by headers. -/
def mergeOptions (baseURL timeout : Val) (options : Fields) : Fields :=
  ((defaultOptions baseURL timeout).assign options).insert "headers"
    (.obj (defaultHeaders.assign (options.get "headers").own))

theorem defaultHeaders_assign (fs : Fields) :
    defaultHeaders.assign (defaultHeaders.assign fs) = defaultHeaders.assign fs := by
  have again := Fields.missingIn_missingIn fs defaultHeaders
  simp only [defaultHeaders, Fields.ofList_cons, Fields.ofList_nil] at again ⊢
  simp [Fields.assign, Fields.updated, Fields.append, Fields.missingIn, again]

theorem find?_mergeOptions_of_ne {key : String} (ne : "headers" ≠ key) (baseURL timeout : Val)
    (options : Fields) : (mergeOptions baseURL timeout options).find? key =
      (options.find? key).or ((defaultOptions baseURL timeout).find? key) := by
  rw [mergeOptions, Fields.find?_insert_of_ne ne, Fields.find?_assign]

/-- An axios that merges options over defaults. -/
def mergingAxios : Axios where
  merge := mergeOptions
  copies baseURL timeout options key member := by
    simp only [bookkeeping, List.mem_cons, List.not_mem_nil, or_false] at member
    rcases member with rfl | rfl
    · rw [find?_mergeOptions_of_ne (by decide)]
      exact Option.or_none
    · rw [find?_mergeOptions_of_ne (by decide)]
      exact Option.or_none
  again baseURL timeout options config alike key other := by
    by_cases same : "headers" = key
    · subst same
      have headers := alike "headers" other
      rw [mergeOptions, Fields.find?_insert_self] at headers
      rw [mergeOptions, mergeOptions, Fields.find?_insert_self, Fields.find?_insert_self,
        Fields.get, headers, Option.getD_some, Val.own_obj, defaultHeaders_assign]
    · rw [find?_mergeOptions_of_ne same, alike key other, find?_mergeOptions_of_ne same,
        Option.or_assoc, Option.or_self]
  headers baseURL timeout options := ⟨_, Fields.find?_insert_self _ _ _⟩

/-- A client that is not to retry. -/
def frugalClient : Client :=
  ⟨.ofList [("retryRequests", .bool true), ("retryCount", .num 0)], .str "/", .num 60000⟩

/-- The server is out of service for the first attempt. -/
def unavailableOnce : ℕ → HttpAnswer
  | 0 => .failure (some 503)
  | _ => .success (.str "ok")

theorem delivered_iff_frugal :
    (∃ k, AttemptsDue frugalClient 0 unavailableOnce k ∧ Delivered mergingAxios frugalClient
        (frugalClient.request mergingAxios (.str "GET") (.str "users") .undefined .undefined)
        unavailableOnce k) ↔
      1 ≤ 0 ∨ (frugalClient.settings.get "retryRequests").truthy = false ∨
        (unavailableOnce 0).serverError = false :=
  delivered_iff mergingAxios frugalClient 0 unavailableOnce (.str "GET") (.str "users")
    .undefined .undefined (by decide) (by decide)

/-- It sends the request a second time. -/
theorem not_delivered_frugal :
    ¬ ∃ k, AttemptsDue frugalClient 0 unavailableOnce k ∧ Delivered mergingAxios frugalClient
      (frugalClient.request mergingAxios (.str "GET") (.str "users") .undefined .undefined)
      unavailableOnce k := by
  intro delivered
  rcases delivered with ⟨k, due, delivered⟩
  have once : k = 1 := by
    rw [AttemptsDue, if_pos (by decide)] at due
    exact Nat.le_antisymm (due.2 ⟨le_rfl, Or.inr rfl⟩) due.1.1
  subst once
  exact absurd (delivered.settled 1 le_rfl) (by decide)

end GAMember
