import GAMember.Http.Retry
import GAMember.Http.Settings

/-!
# Requests side by side

Any number of requests through one client, built from objects that their callers
may share, with answers and calls of `setConfig` in any order. The config of an
attempt is an object: the response interceptor mutates the one it finds in the
error, and `request` makes the config of the next attempt from it. The objects
nested in a config are never mutated and are values here.

* `Net.step`: what can happen next.
* `outcome`: the attempts and the answer of a request from what it has heard.
* `exchanges_isolated`: in every run each request has this outcome.
-/

namespace GAMember

/-- A request and what it has heard: its answers with the settings in force when
they arrived. -/
structure Exchange where
  /-- The config of the last attempt. -/
  config : Ref
  attempts : ℕ
  heard : List Heard
  final : Option HttpAnswer
  deriving DecidableEq

/-- A client, the requests it has made and the objects there are. -/
structure Net where
  heap : Heap Fields
  http : Http
  /-- The objects made by callers. -/
  made : List Ref
  exchanges : Heap Exchange
  deriving DecidableEq

/-- The arguments of `request`: a method with a url, data and options, or a full
config. -/
inductive Arguments
  | call (type url : String) (data : Val) (opts : Option Ref)
  | config (r : Ref)
  deriving DecidableEq

inductive NetLabel
  | make (fields : Fields)
  | request (arguments : Arguments)
  | answer (r : Ref) (a : HttpAnswer)
  | setConfig (conf : Ref)
  deriving DecidableEq

namespace Net

/-- The client after `new Http(opts)`, before any request. -/
def initial (opts : Val) : Option Net := do
  let (heap, http) ← Http.construct Clients.initial.heap opts
  some ⟨heap, http, [], ⟨[]⟩⟩

/-- The client as requests see it. -/
def client (s : Net) : Option Client :=
  (s.heap.get? s.http.config).map fun settings => ⟨settings, s.http.baseURL, s.http.timeout⟩

/-- The content of an object made by a caller. -/
def madeObject (s : Net) (r : Ref) : Option Fields :=
  if r ∈ s.made then s.heap.get? r else none

/-- The config of a first attempt. -/
def first (axios : Axios) (client : Client) (s : Net) : Arguments → Option Fields
  | .call type url data none => some (client.request axios (.str type) (.str url) data .undefined)
  | .call type url data (some r) => do
      let opts ← s.madeObject r
      some (client.request axios (.str type) (.str url) data (.obj opts))
  | .config r => do
      let config ← s.madeObject r
      some (client.request axios (.obj config) .undefined .undefined .undefined)

/-- The response interceptor in a request under way: it mutates the config of the
failed attempt and makes the next one from it, or passes the answer on. -/
def hear (axios : Axios) (client : Client) (s : Net) (r : Ref) (e : Exchange) (a : HttpAnswer) :
    Option Net := do
  let config ← s.heap.get? e.config
  match retryAfter client.settings config a with
  | some mutated =>
      let heap := s.heap.set e.config mutated
      let options ← heap.get? e.config
      let config := client.request axios (.obj options) .undefined .undefined .undefined
      some { s with
        heap := heap.alloc config
        exchanges := s.exchanges.set r
          ⟨heap.size, e.attempts + 1, e.heard ++ [client.heard a], none⟩ }
  | none =>
      some { s with
        exchanges := s.exchanges.set r
          ⟨e.config, e.attempts, e.heard ++ [client.heard a], some a⟩ }

def step (axios : Axios) (s : Net) : NetLabel → Option Net
  | .make fields =>
      some { s with heap := s.heap.alloc fields, made := s.made ++ [s.heap.size] }
  | .request arguments => do
      let client ← s.client
      let config ← s.first axios client arguments
      some { s with
        heap := s.heap.alloc config
        exchanges := s.exchanges.alloc ⟨s.heap.size, 1, [], none⟩ }
  | .answer r a => do
      let client ← s.client
      let e ← s.exchanges.get? r
      if e.final = none then s.hear axios client r e a else none
  | .setConfig conf => do
      let conf ← s.madeObject conf
      let (heap, http) ← s.http.setConfig s.heap (.obj conf)
      some { s with heap, http }

def run (axios : Axios) (s : Net) (ls : List NetLabel) : Option Net := ls.foldlM (step axios) s

end Net

/-- What a request hears in a step: an answer to it, with the settings in force. -/
def Net.hears (s : Net) (r : Ref) : NetLabel → List Heard
  | .answer r' a => if r' = r then (s.client.map fun client => client.heard a).toList else []
  | _ => []

/-- What a request hears along a run. -/
def heardAlong (axios : Axios) (r : Ref) : Net → List NetLabel → List Heard
  | _, [] => []
  | s, l :: ls =>
      s.hears r l ++
        match s.step axios l with
        | some s' => heardAlong axios r s' ls
        | none => []

/-! ## The outcome of a request -/

/-- What a request has come to after what it has heard. -/
def progressOf (heard : List Heard) : Progress := heard.foldl Progress.hear (.sending 0)

/-- The number of attempts and the final answer, from what the request has heard. -/
def outcome (heard : List Heard) : ℕ × Option HttpAnswer :=
  match progressOf heard with
  | .sending retries => (retries + 1, none)
  | .settled attempts a => (attempts, some a)

def HttpAnswer.failed : HttpAnswer → Bool
  | .success _ => false
  | .failure _ => true

/-- An answer with the settings in force if it is a failure, and without otherwise. -/
def Heard.atFailure (h : Heard) : Heard :=
  if h.answer.failed then h else ⟨h.answer, .undefined, .undefined⟩

/-- The natural number a count stands for. -/
def Val.limit (v : Val) : ℕ := (v.toNumber.getD 0).toNat

/-- The largest `retryCount` in force at a failure. -/
def largestCount (heard : List Heard) : ℕ :=
  ((heard.filter (·.answer.failed)).map (·.retryCount.limit)).foldr max 0

theorem limit_of_less {n : ℕ} {v : Val} (less : (Val.num n).less v = true) : n < v.limit := by
  unfold Val.less Val.limit at *
  cases number : v.toNumber with
  | none => simp [number] at less
  | some m =>
    rw [number] at less
    simp only [Val.toNumber, decide_eq_true_eq] at less
    rw [Option.getD_some]
    omega

/-- One more failure can only raise the largest count. -/
theorem largestCount_concat (heard : List Heard) (h : Heard) : largestCount (heard ++ [h]) =
    max (largestCount heard) (if h.answer.failed then h.retryCount.limit else 0) := by
  unfold largestCount
  rw [List.filter_append, List.map_append, List.foldr_append]
  have accumulate (counts : List ℕ) (n : ℕ) : counts.foldr max n = max (counts.foldr max 0) n := by
    induction counts with
    | nil => exact (Nat.zero_max n).symm
    | cons count counts ih => rw [List.foldr_cons, List.foldr_cons, ih, Nat.max_assoc]
  rw [accumulate]
  cases failed : h.answer.failed with
  | false => simp [failed]
  | true => simp [failed]

theorem progressOf_concat (heard : List Heard) (h : Heard) :
    progressOf (heard ++ [h]) = (progressOf heard).hear h := by
  rw [progressOf, List.foldl_append]
  rfl

theorem failed_of_serverError {a : HttpAnswer} (error : a.serverError = true) :
    a.failed = true := by
  cases a with
  | success response => cases error
  | failure status => rfl

/-- The settings in force at a success do not matter. -/
theorem hear_atFailure (progress : Progress) (h : Heard) :
    progress.hear h.atFailure = progress.hear h := by
  unfold Heard.atFailure
  cases failed : h.answer.failed with
  | true => rfl
  | false =>
    have noError : h.answer.serverError = false := by
      by_contra error
      rw [failed_of_serverError (Bool.not_eq_false _ ▸ error)] at failed
      cases failed
    cases progress with
    | settled attempts a => rfl
    | sending retries => simp [Progress.hear, Heard.retried, noError]

theorem outcome_atFailure (heard : List Heard) :
    outcome (heard.map Heard.atFailure) = outcome heard := by
  simp only [outcome, progressOf, List.foldl_map, hear_atFailure]

/-- A request is sent again for the first time, or below a count in force. -/
theorem lt_of_retried {h : Heard} {retries : ℕ} (retried : h.retried retries = true) :
    retries + 1 ≤ max 1 (if h.answer.failed then h.retryCount.limit else 0) := by
  simp only [Heard.retried, Bool.and_eq_true, Bool.or_eq_true, decide_eq_true_eq] at retried
  rcases retried with ⟨⟨error, -⟩, first | below⟩
  · omega
  · have limit := limit_of_less below
    rw [if_pos (failed_of_serverError error)]
    omega

/-- No request makes more attempts than one more than the budget. -/
theorem outcome_le (heard : List Heard) : (outcome heard).1 ≤ 1 + max 1 (largestCount heard) := by
  unfold outcome
  induction heard using List.reverseRecOn with
  | nil => exact Nat.le_add_right 1 _
  | append_singleton heard h ih =>
      rw [progressOf_concat, largestCount_concat]
      cases progress : progressOf heard with
      | settled attempts a =>
        rw [progress] at ih
        dsimp only at ih
        simp only [Progress.hear]
        omega
      | sending retries =>
        rw [progress] at ih
        dsimp only at ih
        rw [Progress.hear]
        cases retried : h.retried retries with
        | false =>
          simp only [Bool.false_eq_true, if_false]
          omega
        | true =>
          have within := lt_of_retried retried
          simp only [if_true]
          omega

/-! ## What holds in every state -/

/-- Where a request stands, from its own record. -/
def Exchange.progress (e : Exchange) : Progress :=
  match e.final with
  | none => .sending (e.attempts - 1)
  | some a => .settled e.attempts a

/-- The record of a request is what it has heard, and the config of its last
attempt counts its retries. -/
structure ExchangeHolds (heap : Heap Fields) (e : Exchange) : Prop where
  sent : 1 ≤ e.attempts
  progress : progressOf e.heard = e.progress
  counts : ∃ config, heap.get? e.config = some config ∧ Counts config (e.attempts - 1)

/-- The objects of the callers are as they were made; the client and the requests
have configs of their own. -/
structure NetHolds (s : Net) (objects : List Fields) : Prop where
  settings : ∃ settings, s.heap.get? s.http.config = some settings
  made : s.made.map s.heap.get? = objects.map some
  apart : s.http.config ∉ s.made
  own : ∀ r (e : Exchange), s.exchanges.get? r = some e →
    e.config ≠ s.http.config ∧ e.config ∉ s.made
  distinct : ∀ r r' (e e' : Exchange), s.exchanges.get? r = some e → s.exchanges.get? r' = some e' →
    e.config = e'.config → r = r'
  holds : ∀ r (e : Exchange), s.exchanges.get? r = some e → ExchangeHolds s.heap e

theorem ExchangeHolds.outcome_eq {heap : Heap Fields} {e : Exchange} (holds : ExchangeHolds heap e) :
    (e.attempts, e.final) = outcome e.heard := by
  have sent := holds.sent
  unfold outcome
  rw [holds.progress, Exchange.progress]
  cases e.final with
  | none => exact congrArg (·, none) (by omega)
  | some a => rfl

theorem ExchangeHolds.of_get? {heap heap' : Heap Fields} {e : Exchange}
    (holds : ExchangeHolds heap e) (same : heap'.get? e.config = heap.get? e.config) :
    ExchangeHolds heap' e := by
  refine ⟨holds.sent, holds.progress, ?_⟩
  rw [same]
  exact holds.counts

section

variable {axios : Axios} {client : Client} {s s' : Net} {objects : List Fields} {r : Ref}
  {e : Exchange}

theorem NetHolds.made_lt_size (hold : NetHolds s objects) (made : r ∈ s.made) :
    r < s.heap.size := by
  have member : s.heap.get? r ∈ s.made.map s.heap.get? := List.mem_map_of_mem made
  rw [hold.made] at member
  obtain ⟨fields, -, here⟩ := List.mem_map.mp member
  exact Heap.lt_size here.symm

theorem NetHolds.config_lt_size (hold : NetHolds s objects) (here : s.exchanges.get? r = some e) :
    e.config < s.heap.size := by
  obtain ⟨config, held, -⟩ := (hold.holds r e here).counts
  exact Heap.lt_size held

/-- An object of a caller is one that was made. -/
theorem NetHolds.mem_of_madeObject (hold : NetHolds s objects) {fields : Fields}
    (object : s.madeObject r = some fields) : fields ∈ objects := by
  unfold Net.madeObject at object
  split at object
  · rename_i made
    have member : s.heap.get? r ∈ s.made.map s.heap.get? := List.mem_map_of_mem made
    rw [hold.made, object] at member
    obtain ⟨fields', there, same⟩ := List.mem_map.mp member
    cases same
    exact there
  · cases object

/-- A new object is none of those that are held already. -/
theorem NetHolds.alloc (hold : NetHolds s objects) (fields : Fields) :
    NetHolds { s with heap := s.heap.alloc fields } objects where
  settings := by
    obtain ⟨settings, here⟩ := hold.settings
    exact ⟨settings, Heap.get?_alloc here⟩
  made := by
    rw [← hold.made]
    exact List.map_congr_left fun r made => Heap.get?_alloc_of_lt (hold.made_lt_size made)
  apart := hold.apart
  own := hold.own
  distinct := hold.distinct
  holds r e here := (hold.holds r e here).of_get? (Heap.get?_alloc_of_lt (hold.config_lt_size here))

theorem NetHolds.make (hold : NetHolds s objects) (fields : Fields) :
    NetHolds { s with heap := s.heap.alloc fields, made := s.made ++ [s.heap.size] }
      (objects ++ [fields]) := by
  have after := hold.alloc fields
  obtain ⟨settings, here⟩ := hold.settings
  refine ⟨after.settings, ?_, ?_, fun r e there => ⟨(after.own r e there).1, ?_⟩,
    after.distinct, after.holds⟩
  · rw [List.map_append, List.map_append, ← after.made]
    simp
  · simp only [List.mem_append, List.mem_singleton, not_or]
    exact ⟨hold.apart, Nat.ne_of_lt (Heap.lt_size here)⟩
  · simp only [List.mem_append, List.mem_singleton, not_or]
    exact ⟨(hold.own r e there).2, Nat.ne_of_lt (hold.config_lt_size there)⟩

/-- A new request has a config of its own. -/
theorem NetHolds.request (hold : NetHolds s objects) {config : Fields} (counts : Counts config 0) :
    NetHolds { s with
      heap := s.heap.alloc config
      exchanges := s.exchanges.alloc ⟨s.heap.size, 1, [], none⟩ } objects := by
  have after := hold.alloc config
  obtain ⟨settings, here⟩ := hold.settings
  refine ⟨after.settings, after.made, after.apart, fun r e there => ?_,
    fun r r' e e' there there' same => ?_, fun r e there => ?_⟩
  · rcases Heap.get?_alloc_eq_some there with old | ⟨-, rfl⟩
    · exact hold.own r e old
    · exact ⟨Nat.ne_of_gt (Heap.lt_size here),
        fun made => absurd rfl (Nat.ne_of_lt (hold.made_lt_size made))⟩
  · rcases Heap.get?_alloc_eq_some there with old | ⟨rfl, rfl⟩
    · rcases Heap.get?_alloc_eq_some there' with old' | ⟨rfl, rfl⟩
      · exact hold.distinct r r' e e' old old' same
      · exact absurd same (Nat.ne_of_lt (hold.config_lt_size old))
    · rcases Heap.get?_alloc_eq_some there' with old' | ⟨rfl, rfl⟩
      · exact absurd same.symm (Nat.ne_of_lt (hold.config_lt_size old'))
      · rfl
  · rcases Heap.get?_alloc_eq_some there with old | ⟨rfl, rfl⟩
    · exact after.holds r e old
    · exact ⟨le_rfl, rfl, config, Heap.get?_alloc_self, counts⟩

/-- An exchange that moves on, with its old config or a new one. -/
theorem NetHolds.moved (hold : NetHolds s objects) (here : s.exchanges.get? r = some e)
    (e' : Exchange) (config : e'.config = e.config ∨
      ∀ r₀ (e₀ : Exchange), s.exchanges.get? r₀ = some e₀ → e₀.config ≠ e'.config)
    (own : e'.config ≠ s.http.config ∧ e'.config ∉ s.made)
    (holds : ExchangeHolds s.heap e') :
    NetHolds { s with exchanges := s.exchanges.set r e' } objects := by
  have apart {r₀ : Ref} {e₀ : Exchange} (ne : r ≠ r₀) (there : s.exchanges.get? r₀ = some e₀) :
      e₀.config ≠ e'.config := by
    rcases config with same | new
    · intro shared
      exact ne (hold.distinct r r₀ e e₀ here there (same.symm.trans shared.symm))
    · exact new r₀ e₀ there
  refine ⟨hold.settings, hold.made, hold.apart, fun r₀ e₀ there => ?_,
    fun r₁ r₂ e₁ e₂ first second same => ?_, fun r₀ e₀ there => ?_⟩
  · rcases Heap.get?_set_eq_some there with ⟨-, rfl⟩ | ⟨-, old⟩
    · exact own
    · exact hold.own r₀ e₀ old
  · rcases Heap.get?_set_eq_some first with ⟨rfl, rfl⟩ | ⟨ne, old⟩
    · rcases Heap.get?_set_eq_some second with ⟨rfl, rfl⟩ | ⟨ne', old'⟩
      · rfl
      · exact absurd same.symm (apart ne' old')
    · rcases Heap.get?_set_eq_some second with ⟨rfl, rfl⟩ | ⟨ne', old'⟩
      · exact absurd same (apart ne old)
      · exact hold.distinct r₁ r₂ e₁ e₂ old old' same
  · rcases Heap.get?_set_eq_some there with ⟨-, rfl⟩ | ⟨-, old⟩
    · exact holds
    · exact hold.holds r₀ e₀ old

/-- Mutating an object that is neither a caller's nor the config of a request. -/
theorem NetHolds.set (hold : NetHolds s objects) (apart : r ∉ s.made)
    (other : ∀ r' (e : Exchange), s.exchanges.get? r' = some e → r ≠ e.config) (fields : Fields) :
    NetHolds { s with heap := s.heap.set r fields } objects where
  settings := by
    obtain ⟨settings, here⟩ := hold.settings
    by_cases same : r = s.http.config
    · subst same
      exact ⟨fields, Heap.get?_set_self (Heap.lt_size here)⟩
    · exact ⟨settings, (Heap.get?_set_of_ne same).trans here⟩
  made := by
    rw [← hold.made]
    refine List.map_congr_left fun r' made => Heap.get?_set_of_ne fun same => ?_
    exact apart (same ▸ made)
  apart := hold.apart
  own := hold.own
  distinct := hold.distinct
  holds r' e here := (hold.holds r' e here).of_get? (Heap.get?_set_of_ne (other r' e here))

/-- An answer moves its request on as the settings in force say. -/
theorem NetHolds.hear (hold : NetHolds s objects) (here : s.exchanges.get? r = some e)
    (flying : e.final = none) {a : HttpAnswer} (taken : s.hear axios client r e a = some s') :
    NetHolds s' objects := by
  obtain ⟨sent, progress, config, held, counts⟩ := hold.holds r e here
  have own := hold.own r e here
  have count : e.attempts - 1 + 1 = e.attempts := Nat.sub_add_cancel sent
  rw [Exchange.progress, flying] at progress
  dsimp only at progress
  simp only [Net.hear, held, Option.bind_eq_bind, Option.bind_some,
    retryAfter_eq client counts] at taken
  cases retried : (client.heard a).retried (e.attempts - 1) with
  | false =>
    simp only [retried, Bool.false_eq_true, if_false] at taken
    cases taken
    refine hold.moved here _ (Or.inl rfl) own ⟨sent, ?_, config, held, counts⟩
    rw [progressOf_concat, progress, Progress.hear, if_neg (by simp [retried])]
    exact congrArg (Progress.settled · a) count
  | true =>
    simp only [retried, if_true, Heap.get?_set_self (Heap.lt_size held), Option.bind_some] at taken
    cases taken
    have mutated := counts_counted config (e.attempts - 1)
    generalize (config.insert "__isRetryRequest" (.bool true)).insert "__retryCount"
      (.num (((e.attempts - 1 : ℕ) : Int) + 1)) = options at mutated ⊢
    have next : Counts (client.request axios (.obj options) .undefined .undefined .undefined)
        (e.attempts - 1 + 1) := counts_request mutated
    generalize client.request axios (.obj options) .undefined .undefined .undefined = attempt
      at next ⊢
    rw [count] at next
    -- the new config first, then the request moves on to it, and nobody has the old one
    obtain ⟨settings, there⟩ := hold.settings
    have moved := (hold.alloc attempt).moved here
      ⟨s.heap.size, e.attempts + 1, e.heard ++ [client.heard a], none⟩
      (Or.inr fun r₀ e₀ there => Nat.ne_of_lt (hold.config_lt_size there))
      ⟨Nat.ne_of_gt (Heap.lt_size there),
        fun made => absurd rfl (Nat.ne_of_lt (hold.made_lt_size made))⟩
      ⟨Nat.le_add_left 1 _, ?_, attempt, Heap.get?_alloc_self, next⟩
    · have unused := moved.set own.2 (fun r' e' there' => ?_) options
      · rwa [Heap.set_alloc (Heap.lt_size held), ← Heap.size_set] at unused
      · rcases Heap.get?_set_eq_some there' with ⟨-, rfl⟩ | ⟨ne, old⟩
        · exact Nat.ne_of_lt (Heap.lt_size held)
        · exact fun same => ne (hold.distinct r r' e e' here old same)
    · rw [progressOf_concat, progress, Progress.hear, if_pos retried]
      exact congrArg Progress.sending count

/-- The first attempt of a request has no retries behind it. -/
theorem NetHolds.counts_first (hold : NetHolds s objects)
    (fresh : ∀ fields ∈ objects, fields.find? "__retryCount" = none) {arguments : Arguments}
    {config : Fields} (built : s.first axios client arguments = some config) :
    Counts config 0 := by
  have none {options : Fields} (absent : options.find? "__retryCount" = none) :
      Counts options 0 := by
    rw [Counts, Fields.get, absent]
    rfl
  cases arguments with
  | call type url data opts =>
    cases opts with
    | none =>
      cases built
      exact counts_request (none (find?_requestOptions (by decide) _ _ _))
    | some r =>
      obtain ⟨opts, object, built⟩ := Option.bind_eq_some_iff.mp built
      cases built
      refine counts_request (none ?_)
      rw [find?_requestOptions (by decide)]
      exact fresh opts (hold.mem_of_madeObject object)
  | config r =>
    obtain ⟨options, object, built⟩ := Option.bind_eq_some_iff.mp built
    cases built
    exact counts_request (none (fresh options (hold.mem_of_madeObject object)))

theorem NetHolds.setConfig (hold : NetHolds s objects) {conf : Val} {heap : Heap Fields}
    {http : Http} (taken : s.http.setConfig s.heap conf = some (heap, http)) :
    NetHolds { s with heap, http } objects := by
  obtain ⟨settings, here⟩ := hold.settings
  simp only [Http.setConfig, here, Option.bind_eq_bind, Option.bind_some] at taken
  cases taken
  have after := hold.set hold.apart (fun r e there => (hold.own r e there).1.symm)
    (settings.assign conf.own)
  exact ⟨after.settings, after.made, after.apart, after.own, after.distinct, after.holds⟩

/-- The objects callers make along the labels. -/
def NetLabel.made? : NetLabel → Option Fields
  | .make fields => some fields
  | _ => none

theorem NetHolds.step (hold : NetHolds s objects) {l : NetLabel}
    (fresh : ∀ fields ∈ objects, fields.find? "__retryCount" = none)
    (taken : s.step axios l = some s') : NetHolds s' (objects ++ l.made?.toList) := by
  cases l with
  | make fields =>
    cases taken
    exact hold.make fields
  | request arguments =>
    obtain ⟨client, seen, taken⟩ := Option.bind_eq_some_iff.mp taken
    obtain ⟨config, built, taken⟩ := Option.bind_eq_some_iff.mp taken
    cases taken
    simp only [NetLabel.made?, Option.toList_none, List.append_nil]
    exact hold.request (hold.counts_first fresh built)
  | answer r a =>
    obtain ⟨client, seen, taken⟩ := Option.bind_eq_some_iff.mp taken
    obtain ⟨e, here, taken⟩ := Option.bind_eq_some_iff.mp taken
    simp only [NetLabel.made?, Option.toList_none, List.append_nil]
    split at taken
    · rename_i flying
      exact hold.hear here flying taken
    · cases taken
  | setConfig conf =>
    obtain ⟨fields, object, taken⟩ := Option.bind_eq_some_iff.mp taken
    obtain ⟨⟨heap, http⟩, set, taken⟩ := Option.bind_eq_some_iff.mp taken
    cases taken
    simp only [NetLabel.made?, Option.toList_none, List.append_nil]
    exact hold.setConfig set

theorem netHolds_initial {opts : Val} (constructed : Net.initial opts = some s) :
    NetHolds s [] := by
  unfold Net.initial at constructed
  obtain ⟨⟨heap, http⟩, new, same⟩ := Option.bind_eq_some_iff.mp constructed
  cases same
  cases new
  refine ⟨⟨_, rfl⟩, rfl, List.not_mem_nil, fun r e none => ?_, fun r r' e e' none => ?_,
    fun r e none => ?_⟩
  · simp [Heap.get?] at none
  · simp [Heap.get?] at none
  · simp [Heap.get?] at none

theorem NetHolds.run (hold : NetHolds s objects) {ls : List NetLabel}
    (fresh : ∀ fields ∈ objects ++ ls.filterMap NetLabel.made?,
      fields.find? "__retryCount" = none)
    (taken : s.run axios ls = some s') : NetHolds s' (objects ++ ls.filterMap NetLabel.made?) := by
  induction ls generalizing s objects with
  | nil =>
      cases taken
      rwa [List.filterMap_nil, List.append_nil]
  | cons l ls ih =>
      obtain ⟨next, first, rest⟩ := Option.bind_eq_some_iff.mp taken
      have split : objects ++ (l :: ls).filterMap NetLabel.made? =
          (objects ++ l.made?.toList) ++ ls.filterMap NetLabel.made? := by
        rw [List.filterMap_cons, List.append_assoc]
        cases l.made? <;> rfl
      rw [split] at fresh ⊢
      exact ih (hold.step (fun fields member => fresh fields (by simp [member])) first) fresh rest

/-- What a request has heard so far. -/
def Net.heardBy (s : Net) (r : Ref) : List Heard :=
  ((s.exchanges.get? r).map Exchange.heard).getD []

theorem heardBy_set (here : s.exchanges.get? r = some e) {e' : Exchange} {h : Heard}
    (heard : e'.heard = e.heard ++ [h]) (heap : Heap Fields) (r' : Ref) :
    Net.heardBy { s with heap, exchanges := s.exchanges.set r e' } r' =
      s.heardBy r' ++ if r = r' then [h] else [] := by
  unfold Net.heardBy
  by_cases same : r = r'
  · subst same
    rw [Heap.get?_set_self (Heap.lt_size here), here, if_pos rfl]
    exact heard
  · rw [Heap.get?_set_of_ne same, if_neg same, List.append_nil]

/-- A new request has heard nothing. -/
theorem heardBy_alloc (heap : Heap Fields) (config r : Ref) :
    Net.heardBy { s with heap, exchanges := s.exchanges.alloc ⟨config, 1, [], none⟩ } r =
      s.heardBy r := by
  unfold Net.heardBy
  cases old : s.exchanges.get? r with
  | some e => rw [Heap.get?_alloc old]
  | none =>
    cases new : (s.exchanges.alloc ⟨config, 1, [], none⟩).get? r with
    | none => rfl
    | some e =>
      rcases Heap.get?_alloc_eq_some new with before | ⟨-, rfl⟩
      · cases old.symm.trans before
      · rfl

theorem heardBy_step {l : NetLabel} (taken : s.step axios l = some s') (r : Ref) :
    s'.heardBy r = s.heardBy r ++ s.hears r l := by
  cases l with
  | make fields =>
    cases taken
    exact (List.append_nil _).symm
  | request arguments =>
    obtain ⟨client, seen, taken⟩ := Option.bind_eq_some_iff.mp taken
    obtain ⟨config, built, taken⟩ := Option.bind_eq_some_iff.mp taken
    cases taken
    exact (heardBy_alloc _ _ r).trans (List.append_nil _).symm
  | answer r' a =>
    obtain ⟨client, seen, taken⟩ := Option.bind_eq_some_iff.mp taken
    obtain ⟨e, here, taken⟩ := Option.bind_eq_some_iff.mp taken
    rw [Net.hears, seen, Option.map_some, Option.toList_some]
    split at taken
    · obtain ⟨config, held, taken⟩ := Option.bind_eq_some_iff.mp taken
      cases counted : retryAfter client.settings config a with
      | none =>
        rw [counted] at taken
        cases taken
        exact heardBy_set here rfl _ r
      | some mutated =>
        rw [counted] at taken
        obtain ⟨options, -, taken⟩ := Option.bind_eq_some_iff.mp taken
        cases taken
        exact heardBy_set here rfl _ r
    · cases taken
  | setConfig conf =>
    obtain ⟨fields, object, taken⟩ := Option.bind_eq_some_iff.mp taken
    obtain ⟨⟨heap, http⟩, set, taken⟩ := Option.bind_eq_some_iff.mp taken
    cases taken
    exact (List.append_nil _).symm

theorem heardBy_run {ls : List NetLabel} (taken : s.run axios ls = some s') (r : Ref) :
    s'.heardBy r = s.heardBy r ++ heardAlong axios r s ls := by
  induction ls generalizing s with
  | nil =>
      cases taken
      exact (List.append_nil _).symm
  | cons l ls ih =>
      obtain ⟨next, first, rest⟩ := Option.bind_eq_some_iff.mp taken
      rw [ih rest, heardBy_step first, heardAlong, first, List.append_assoc]

/-- The record of a request is what it hears along the run. -/
theorem heard_eq {opts : Val} {first : Net} (constructed : Net.initial opts = some first)
    {ls : List NetLabel} (taken : first.run axios ls = some s)
    (here : s.exchanges.get? r = some e) : e.heard = heardAlong axios r first ls := by
  have along := heardBy_run taken r
  unfold Net.initial at constructed
  obtain ⟨⟨heap, http⟩, new, same⟩ := Option.bind_eq_some_iff.mp constructed
  cases same
  rw [Net.heardBy, here] at along
  exact along

end

/-- **Requests do not touch each other or their callers' objects.** In every run,
what was made by a caller is as it was made, and the attempts and the final answer
of each request are the outcome of its own answers and the settings at its failures. -/
theorem exchanges_isolated (axios : Axios) (opts : Val) (ls : List NetLabel) (first s : Net)
    (constructed : Net.initial opts = some first) (taken : first.run axios ls = some s)
    (fresh : ∀ fields, .make fields ∈ ls → fields.find? "__retryCount" = none) :
    s.made.map s.heap.get? = (ls.filterMap NetLabel.made?).map some ∧
      ∀ r (e : Exchange), s.exchanges.get? r = some e →
        (e.attempts, e.final) = outcome ((heardAlong axios r first ls).map Heard.atFailure) ∧
          e.attempts ≤ 1 + max 1 (largestCount (heardAlong axios r first ls)) := by
  have hold := (netHolds_initial constructed).run (fun fields member => fresh fields ?_) taken
  · refine ⟨hold.made, fun r e here => ?_⟩
    have outcome := (hold.holds r e here).outcome_eq
    rw [heard_eq constructed taken here] at outcome
    exact ⟨outcome.trans (outcome_atFailure _).symm, (congrArg Prod.fst outcome).trans_le (outcome_le _)⟩
  · obtain ⟨l, here, made⟩ := List.mem_filterMap.mp member
    cases l with
    | make fields' =>
      cases made
      exact here
    | request arguments => cases made
    | answer r a => cases made
    | setConfig conf => cases made

/-! ## Two requests from one object -/

/-- Two requests are built from one object of options; the first recovers after a
retry, the second uses up what is left of the budget when it is cut. -/
def sharedLabels : List NetLabel :=
  [.make (.ofList [("withAuth", .bool true)]), .make (.ofList [("retryCount", .num 1)]),
    .request (.call "GET" "users" .undefined (some 2)),
    .request (.call "POST" "users" (.str "ann") (some 2)),
    .answer 0 (.failure (some 503)), .setConfig 3, .answer 1 (.failure (some 503)),
    .answer 1 (.failure (some 500)), .answer 0 (.success (.str "ok"))]

def sharedFirst : Net where
  heap := ⟨[DEFAULT_CONFIG, DEFAULT_CONFIG]⟩
  http := ⟨1, .str "/", .num 60000⟩
  made := []
  exchanges := ⟨[]⟩

theorem sharedLabels_possible : (sharedFirst.run mergingAxios sharedLabels).isSome = true := by
  decide +kernel

example : (sharedFirst.run mergingAxios sharedLabels).map (fun s =>
    s.exchanges.cells.map fun e => (e.attempts, e.final)) =
      some [(2, some (.success (.str "ok"))), (2, some (.failure (some 500)))] := by
  decide +kernel

theorem exchanges_isolated_shared : ∃ s, sharedFirst.run mergingAxios sharedLabels = some s ∧
    s.made.map s.heap.get? = (sharedLabels.filterMap NetLabel.made?).map some ∧
      ∀ r (e : Exchange), s.exchanges.get? r = some e →
        (e.attempts, e.final) =
            outcome ((heardAlong mergingAxios r sharedFirst sharedLabels).map Heard.atFailure) ∧
          e.attempts ≤ 1 + max 1 (largestCount (heardAlong mergingAxios r sharedFirst
            sharedLabels)) := by
  obtain ⟨s, taken⟩ := Option.isSome_iff_exists.mp sharedLabels_possible
  exact ⟨s, taken, exchanges_isolated mergingAxios .undefined sharedLabels sharedFirst s
    (by decide) taken (by simp [sharedLabels])⟩

end GAMember
