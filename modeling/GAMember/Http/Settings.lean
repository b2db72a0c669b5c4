import GAMember.Js.Heap
import GAMember.Js.Object
import Mathlib.Data.List.Induction

/-!
# The settings of the HTTP clients

A client keeps its settings twice: `this.config` is an object of its own, and the
defaults of its axios instance have their own `baseURL` and `timeout`. The
constructor fills the first from `DEFAULT_CONFIG` and its options and sets
`baseURL` to `'/'` whatever they say; `setConfig` changes the first in place and
copies both fields over, supplied or not.

The clients of a program and the objects they hold are one state, so that what
one of them does to another, or to `DEFAULT_CONFIG`, can be said.

* `ClientsHold.run`: what every client holds after any calls.
* `settingsInForce_iff`: when that is what was supplied last.
-/

namespace GAMember

/-- `DEFAULT_CONFIG`. -/
def DEFAULT_CONFIG : Fields :=
  .ofList [("timeout", .num 60000), ("responseType", .str "json"), ("retryRequests", .bool true),
    ("cacheAge", .num 0), ("retryCount", .num 2)]

/-- A client: its config, and the two defaults of its axios instance that
`setConfig` changes. -/
structure Http where
  config : Ref
  baseURL : Val
  timeout : Val
  deriving DecidableEq

/-- The reference of `DEFAULT_CONFIG`. -/
def defaultRef : Ref := 0

/-- `new Http(opts)`. -/
def Http.construct (heap : Heap Fields) (opts : Val) : Option (Heap Fields × Http) := do
  let default ← heap.get? defaultRef
  let config := (Fields.nil.assign default).assign (opts.orDefault (.object [])).own
  some (heap.alloc config, ⟨heap.size, .str "/", config.get "timeout"⟩)

/-- `setConfig(conf)`. -/
def Http.setConfig (http : Http) (heap : Heap Fields) (conf : Val) :
    Option (Heap Fields × Http) := do
  let config ← heap.get? http.config
  let config := config.assign conf.own
  some (heap.set http.config config,
    { http with baseURL := config.get "baseURL", timeout := config.get "timeout" })

/-- The clients of a program and the objects there are; the first of these is
`DEFAULT_CONFIG`. -/
structure Clients where
  heap : Heap Fields
  instances : Heap Http
  deriving DecidableEq

inductive Call
  | construct (opts : Val)
  | setConfig (i : Ref) (conf : Val)
  deriving DecidableEq

namespace Clients

def initial : Clients := ⟨⟨[DEFAULT_CONFIG]⟩, ⟨[]⟩⟩

def step (s : Clients) : Call → Option Clients
  | .construct opts => do
      let (heap, http) ← Http.construct s.heap opts
      some ⟨heap, s.instances.alloc http⟩
  | .setConfig i conf => do
      let http ← s.instances.get? i
      let (heap, http) ← http.setConfig s.heap conf
      some ⟨heap, s.instances.set i http⟩

def run (s : Clients) (calls : List Call) : Option Clients := calls.foldlM step s

end Clients

/-! ## What was supplied -/

/-- The settings in question. -/
inductive Setting
  | baseURL
  | timeout
  | retryRequests
  | retryCount
  deriving DecidableEq

def Setting.key : Setting → String
  | .baseURL => "baseURL"
  | .timeout => "timeout"
  | .retryRequests => "retryRequests"
  | .retryCount => "retryCount"

/-- The value of a setting that is never supplied. -/
def Setting.default : Setting → Val
  | .baseURL => .str "/"
  | setting => DEFAULT_CONFIG.get setting.key

/-- The setting as it takes effect: in a request, or in the response interceptor. -/
def Http.inForce (http : Http) (config : Fields) : Setting → Val
  | .baseURL => http.baseURL
  | .timeout => http.timeout
  | .retryRequests => config.get "retryRequests"
  | .retryCount => config.get "retryCount"

/-- The values a call adds to those its client was supplied with: the first
element for a client is that of its constructor, one for each `setConfig` follows. -/
def supply (supplies : List (List Fields)) : Call → List (List Fields)
  | .construct opts => supplies ++ [[opts.own]]
  | .setConfig i conf => supplies.modify i (· ++ [conf.own])

/-- For each client all it was supplied with. -/
def supplies (calls : List Call) : List (List Fields) := calls.foldl supply []

/-- The last value supplied for a key. -/
def lastSupplied (key : String) (supplied : List Fields) : Option Val :=
  supplied.reverse.findSome? (Fields.find? key)

/-- Every setting in force is the one supplied last, or its default. -/
def InForce (s : Clients) (http : Http) (supplied : List Fields) : Prop :=
  ∃ config, s.heap.get? http.config = some config ∧
    ∀ setting : Setting,
      http.inForce config setting = (lastSupplied setting.key supplied).getD setting.default

/-- A client that has had no `setConfig` was given no `baseURL` but `'/'`; one that
has had some was given a `baseURL`, be it by its constructor or by one of them. -/
def baseKept (supplied : List Fields) : Bool :=
  match supplied with
  | [opts] => (lastSupplied "baseURL" [opts]).all (· = .str "/")
  | supplied => (lastSupplied "baseURL" supplied).isSome

/-! ## What the clients hold -/

/-- The config of a client, from what it was supplied with. -/
def held (supplied : List Fields) : Fields := supplied.foldl Fields.assign DEFAULT_CONFIG

theorem held_concat (supplied : List Fields) (fs : Fields) :
    held (supplied ++ [fs]) = (held supplied).assign fs := by
  rw [held, List.foldl_append]
  rfl

theorem lastSupplied_concat (key : String) (supplied : List Fields) (fs : Fields) :
    lastSupplied key (supplied ++ [fs]) = (fs.find? key).or (lastSupplied key supplied) := by
  unfold lastSupplied
  rw [List.reverse_append, List.reverse_singleton, List.singleton_append, List.findSome?_cons]
  cases fs.find? key <;> rfl

/-- The config has the value supplied last, or that of `DEFAULT_CONFIG`. -/
theorem find?_held (supplied : List Fields) (key : String) :
    (held supplied).find? key = (lastSupplied key supplied).or (DEFAULT_CONFIG.find? key) := by
  induction supplied using List.reverseRecOn with
  | nil => rfl
  | append_singleton supplied fs ih =>
      rw [held_concat, Fields.find?_assign, ih, lastSupplied_concat, Option.or_assoc]

theorem get_held (supplied : List Fields) (key : String) :
    (held supplied).get key = (lastSupplied key supplied).getD (DEFAULT_CONFIG.get key) := by
  rw [Fields.get, find?_held, Fields.get]
  cases lastSupplied key supplied with
  | none => rfl
  | some _ => rfl

/-- A client holds what it was supplied with, except that its axios instance has
the `baseURL` only from the first `setConfig` on. -/
structure Holds (heap : Heap Fields) (http : Http) (supplied : List Fields) : Prop where
  constructed : supplied ≠ []
  config : heap.get? http.config = some (held supplied)
  timeout : http.timeout = (held supplied).get "timeout"
  baseURL : http.baseURL =
    if supplied.length = 1 then .str "/" else (held supplied).get "baseURL"

/-- `DEFAULT_CONFIG` is as it was, no two clients share a config, and each client
holds what it was supplied with. -/
structure ClientsHold (s : Clients) (supplies : List (List Fields)) : Prop where
  default : s.heap.get? defaultRef = some DEFAULT_CONFIG
  size : s.instances.size = supplies.length
  distinct : ∀ i j (http http' : Http), s.instances.get? i = some http →
    s.instances.get? j = some http' → http.config = http'.config → i = j
  holds : ∀ i (http : Http), s.instances.get? i = some http → http.config ≠ defaultRef ∧
    ∃ supplied, supplies[i]? = some supplied ∧ Holds s.heap http supplied

theorem Holds.of_get? {heap heap' : Heap Fields} {http : Http} {supplied : List Fields}
    (holds : Holds heap http supplied)
    (same : heap'.get? http.config = heap.get? http.config) : Holds heap' http supplied :=
  ⟨holds.constructed, same.trans holds.config, holds.timeout, holds.baseURL⟩

theorem clientsHold_initial : ClientsHold .initial [] where
  default := rfl
  size := rfl
  distinct i j http http' here := by simp [Clients.initial, Heap.get?] at here
  holds i http here := by simp [Clients.initial, Heap.get?] at here

theorem own_orDefault_object (opts : Val) : (opts.orDefault (.object [])).own = opts.own := by
  by_cases omitted : opts = .undefined
  · subst omitted
    rfl
  · rw [Val.orDefault_of_ne omitted]

section

variable {s s' : Clients} {supplies : List (List Fields)}

theorem ClientsHold.lt_size (hold : ClientsHold s supplies) {i : Ref} {http : Http}
    (here : s.instances.get? i = some http) : http.config < s.heap.size := by
  obtain ⟨-, supplied, -, holds⟩ := hold.holds i http here
  exact Heap.lt_size holds.config

theorem ClientsHold.construct {opts : Val} (hold : ClientsHold s supplies)
    (taken : s.step (.construct opts) = some s') : ClientsHold s' (supplies ++ [[opts.own]]) := by
  have default : Fields.nil.assign DEFAULT_CONFIG = DEFAULT_CONFIG := by decide
  simp only [Clients.step, Http.construct, hold.default, Option.bind_eq_bind, Option.bind_some,
    default, own_orDefault_object] at taken
  cases taken
  refine ⟨Heap.get?_alloc hold.default, by simp [hold.size],
    fun i j http http' here there same => ?_, fun i http here => ?_⟩
  · rcases Heap.get?_alloc_eq_some here with old | ⟨rfl, rfl⟩
    · rcases Heap.get?_alloc_eq_some there with old' | ⟨rfl, rfl⟩
      · exact hold.distinct i j http http' old old' same
      · exact absurd same (Nat.ne_of_lt (hold.lt_size old))
    · rcases Heap.get?_alloc_eq_some there with old' | ⟨rfl, rfl⟩
      · exact absurd same.symm (Nat.ne_of_lt (hold.lt_size old'))
      · rfl
  · rcases Heap.get?_alloc_eq_some here with old | ⟨rfl, rfl⟩
    · obtain ⟨own, supplied, given, holds⟩ := hold.holds i http old
      refine ⟨own, supplied, ?_, holds.of_get? (Heap.get?_alloc_of_lt (hold.lt_size old))⟩
      rw [List.getElem?_append_left (List.getElem?_eq_some_iff.mp given).1, given]
    · refine ⟨Nat.ne_of_gt (Heap.lt_size hold.default), [opts.own], ?_, by simp,
        Heap.get?_alloc_self, rfl, rfl⟩
      rw [hold.size, List.getElem?_concat_length]

theorem ClientsHold.setConfig {i : Ref} {conf : Val} (hold : ClientsHold s supplies)
    (taken : s.step (.setConfig i conf) = some s') :
    ClientsHold s' (supplies.modify i (· ++ [conf.own])) := by
  obtain ⟨http, here, rest⟩ := Option.bind_eq_some_iff.mp taken
  obtain ⟨own, supplied, given, holds⟩ := hold.holds i http here
  simp only [Http.setConfig, holds.config, Option.bind_eq_bind, Option.bind_some] at rest
  cases rest
  refine ⟨(Heap.get?_set_of_ne own).trans hold.default, by simp [hold.size],
    fun j k http₁ http₂ first second same => ?_, fun j http' there => ?_⟩
  · -- setting a client leaves its config where it is
    rcases Heap.get?_set_eq_some first with ⟨rfl, rfl⟩ | ⟨-, old⟩
    · rcases Heap.get?_set_eq_some second with ⟨rfl, rfl⟩ | ⟨-, old'⟩
      · rfl
      · exact hold.distinct i k http http₂ here old' same
    · rcases Heap.get?_set_eq_some second with ⟨rfl, rfl⟩ | ⟨-, old'⟩
      · exact hold.distinct j i http₁ http old here same
      · exact hold.distinct j k http₁ http₂ old old' same
  · rcases Heap.get?_set_eq_some there with ⟨rfl, rfl⟩ | ⟨ne, old⟩
    · refine ⟨own, supplied ++ [conf.own], by simp [given], by simp, ?_, ?_, ?_⟩
      · rw [held_concat]
        exact Heap.get?_set_self (hold.lt_size here)
      · rw [held_concat]
      · rw [held_concat, if_neg]
        simpa using holds.constructed
    · obtain ⟨own', supplied', given', holds'⟩ := hold.holds j http' old
      refine ⟨own', supplied', ?_, holds'.of_get? (Heap.get?_set_of_ne fun same => ?_)⟩
      · rw [List.getElem?_modify_ne _ _ ne, given']
      · exact ne (hold.distinct i j http http' here old same)

theorem ClientsHold.step {call : Call} (hold : ClientsHold s supplies)
    (taken : s.step call = some s') : ClientsHold s' (supply supplies call) := by
  cases call with
  | construct opts => exact hold.construct taken
  | setConfig i conf => exact hold.setConfig taken

/-- What the clients hold along a run. -/
theorem ClientsHold.run {calls : List Call} (hold : ClientsHold s supplies)
    (taken : s.run calls = some s') : ClientsHold s' (calls.foldl supply supplies) := by
  induction calls generalizing s supplies with
  | nil =>
      cases taken
      exact hold
  | cons call calls ih =>
      obtain ⟨next, first, rest⟩ := Option.bind_eq_some_iff.mp taken
      exact ih (hold.step first) rest

/-- `setConfig` and the constructor agree on everything but the base URL. -/
theorem Holds.inForce_iff_baseURL {http : Http} {supplied : List Fields}
    (holds : Holds s.heap http supplied) : InForce s http supplied ↔
      http.baseURL = (lastSupplied "baseURL" supplied).getD (.str "/") := by
  constructor
  · intro inForce
    rcases inForce with ⟨config, -, every⟩
    exact every .baseURL
  · intro kept
    refine ⟨_, holds.config, fun setting => ?_⟩
    cases setting with
    | baseURL => exact kept
    | timeout => exact holds.timeout.trans (get_held supplied "timeout")
    | retryRequests => exact get_held supplied "retryRequests"
    | retryCount => exact get_held supplied "retryCount"

theorem Holds.inForce_iff {http : Http} {supplied : List Fields}
    (holds : Holds s.heap http supplied) :
    InForce s http supplied ↔ baseKept supplied = true := by
  rw [holds.inForce_iff_baseURL, holds.baseURL]
  match supplied, holds.constructed with
  | [opts], _ =>
    cases base : lastSupplied "baseURL" [opts] with
    | none => simp [baseKept, base]
    | some v => simp [baseKept, base, eq_comm]
  | opts :: conf :: confs, _ =>
    have unset : DEFAULT_CONFIG.get "baseURL" = .undefined := by decide
    rw [if_neg (by simp), get_held, unset]
    cases base : lastSupplied "baseURL" (opts :: conf :: confs) with
    | none => simp [baseKept, base]
    | some v => simp [baseKept, base]

end

/-- **Exactly the base URL can differ from what was supplied last.** After any calls
`DEFAULT_CONFIG` is as it was, and the settings of each client in force are those
that it was itself supplied with last, or their defaults, if and only if it kept
its base URL. -/
theorem settingsInForce_iff (calls : List Call) (s : Clients)
    (taken : Clients.run .initial calls = some s) :
    s.heap.get? defaultRef = some DEFAULT_CONFIG ∧
      ∀ i (http : Http), s.instances.get? i = some http → ∃ supplied,
        (supplies calls)[i]? = some supplied ∧
          (InForce s http supplied ↔ baseKept supplied = true) := by
  have hold := clientsHold_initial.run taken
  refine ⟨hold.default, fun i http here => ?_⟩
  obtain ⟨-, supplied, given, holds⟩ := hold.holds i http here
  exact ⟨supplied, given, holds.inForce_iff⟩

/-- The app's own calls, and a second client beside it. -/
def appCalls : List Call :=
  [.construct .undefined, .construct (.object [("retryCount", .num 5)]),
    .setConfig 0 (.object [("baseURL", .str "http://18.184.156.139:8089/api")])]

def appClients : Clients where
  heap := ⟨[DEFAULT_CONFIG,
    DEFAULT_CONFIG.insert "baseURL" (.str "http://18.184.156.139:8089/api"),
    DEFAULT_CONFIG.insert "retryCount" (.num 5)]⟩
  instances := ⟨[⟨1, .str "http://18.184.156.139:8089/api", .num 60000⟩,
    ⟨2, .str "/", .num 60000⟩]⟩

theorem settingsInForce_iff_app :
    appClients.heap.get? defaultRef = some DEFAULT_CONFIG ∧
      ∀ i (http : Http), appClients.instances.get? i = some http → ∃ supplied,
        (supplies appCalls)[i]? = some supplied ∧
          (InForce appClients http supplied ↔ baseKept supplied = true) :=
  settingsInForce_iff appCalls appClients (by decide)

/-- A new client of which only the timeout is set. -/
def timeoutCalls : List Call :=
  [.construct .undefined, .setConfig 0 (.object [("timeout", .num 1)])]

/-- Its base URL is gone. -/
theorem not_inForce_timeoutCalls :
    ¬ ∀ s i (http : Http) supplied, Clients.run .initial timeoutCalls = some s →
      s.instances.get? i = some http → (supplies timeoutCalls)[i]? = some supplied →
      InForce s http supplied := by
  intro always
  have inForce := always
    ⟨⟨[DEFAULT_CONFIG, DEFAULT_CONFIG.insert "timeout" (.num 1)]⟩, ⟨[⟨1, .undefined, .num 1⟩]⟩⟩
    0 ⟨1, .undefined, .num 1⟩ [.nil, .ofList [("timeout", .num 1)]] (by decide) rfl (by decide)
  rcases inForce with ⟨config, -, every⟩
  have base := every .baseURL
  cases base

/-- A base URL given to the constructor is not in force before `setConfig`. -/
example : (Clients.run .initial [.construct (.object [("baseURL", .str "/api")])]).map
    (fun s => s.instances.cells.map Http.baseURL) = some [.str "/"] := by decide

end GAMember
