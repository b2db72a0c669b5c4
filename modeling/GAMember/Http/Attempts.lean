import GAMember.Effects.Handler
import GAMember.Http.Retry
import GAMember.Http.Settings
import GAMember.Saga.Effect

/-!
# The attempts behind a post

`services/http` exports one client: `new Http()`, set to the API's base URL. A
`yield http.post(…)` of a saga is answered once; on the wire it is one attempt
after another, as the response interceptor sends it again. `attempts` is that as a
program over the wire, and `perform` the handler that puts it in the place of
the post. Every other effect of a saga is one effect of the wire.

`leads_attempts`: there are at most three attempts, all of them carry the first
request, and only the last of them is not a server error answered by another.
-/

namespace GAMember

/-! ## The exported client -/

def API_URL : String := "http://18.184.156.139:8089/api"

/-- `export default new Http()` and `http.setConfig({ baseURL: API_URL })`. -/
def serviceCalls : List Call :=
  [.construct .undefined, .setConfig 0 (.object [("baseURL", .str API_URL)])]

/-- An instance as its requests see it. -/
def Clients.client? (s : Clients) (i : Ref) : Option Client := do
  let http ← s.instances.get? i
  let settings ← s.heap.get? http.config
  some ⟨settings, http.baseURL, http.timeout⟩

def serviceClient : Client :=
  ⟨DEFAULT_CONFIG.assign (.ofList [("baseURL", .str API_URL)]), .str API_URL, .num 60000⟩

/-- What the requests of the exported client see. -/
theorem serviceClient_eq :
    ((Clients.initial.run serviceCalls).bind fun s => s.client? 0) = some serviceClient := rfl

/-- The exported client retries a server error twice. -/
theorem retried_serviceClient (a : HttpAnswer) (retries : ℕ) :
    (serviceClient.heard a).retried retries = (a.serverError && decide (retries < 2)) := by
  have settings : serviceClient.heard a = ⟨a, .bool true, .num 2⟩ := rfl
  rw [settings]
  cases retries with
  | zero => simp [Heard.retried, Val.truthy]
  | succ n =>
    simp only [Heard.retried, Val.truthy, Bool.and_true, Nat.succ_ne_zero, decide_false,
      Bool.false_or, Val.less_num]
    congr 1
    exact decide_eq_decide.mpr (by omega)

/-! ## The wire -/

/-- What leaves the app: an effect of a saga, or one attempt of a request. -/
inductive Wire
  | effect (e : Eff)
  | send (config : Fields)
  deriving DecidableEq

/-- The answer of a promise that settles with what came back. -/
def HttpAnswer.settles : HttpAnswer → Answer
  | .success response => .returns response
  | .failure _ => .throws

/-- `http[verb](…args)`: the config of its first attempt. -/
def Client.post (client : Client) (axios : Axios) (args : List Val) : Option Fields :=
  (parseArgs args).map fun (url, data, opts) => client.request axios (.str "POST") url data opts

/-- The attempts from one under way on, of which there are at most so many. -/
def attempts (axios : Axios) (client : Client) : ℕ → Fields → Prog Wire HttpAnswer Answer
  | 0, _ => .thrown
  | most + 1, config => .call (.send config) fun a =>
      match (Chain.flying config).hear axios client a with
      | .flying config => attempts axios client most config
      | .settled a => .ret a.settles

/-- An effect of a saga as the wire performs it. -/
def perform (axios : Axios) : Eff → Prog Wire HttpAnswer Answer
  | .post url data opts =>
      match serviceClient.post axios [.str url, data, opts] with
      | some config => attempts axios serviceClient 3 config
      | none => .ret .throws
  | e => .call (.effect e) fun a => .ret a.settles

/-- The config of the first attempt of a post. -/
def firstAttempt (axios : Axios) (url : String) (data opts : Val) : Fields :=
  serviceClient.request axios (.str "POST") (.str url) data opts

theorem perform_post (axios : Axios) (url : String) (data opts : Val) :
    perform axios (.post url data opts) =
      attempts axios serviceClient 3 (firstAttempt axios url data opts) := rfl

/-- An answer that is no server error ends the attempts. -/
theorem attempts_answered (axios : Axios) (client : Client) (most : ℕ) (config : Fields)
    {a : HttpAnswer} (answered : a.serverError = false) :
    Prog.Leads (attempts axios client (most + 1) config) [(.send config, a)] (.ret a.settles) := by
  have settled : (Chain.flying config).hear axios client a = .settled a := by
    simp [Chain.hear, retryAfter, answered]
  refine .step ?_
  rw [settled]
  exact .refl _

/-! ## What the attempts are -/

/-- The attempts of a request with so many retries left, up to the answer it
settles with. -/
inductive Tries (first : Fields) : ℕ → List (Wire × HttpAnswer) → HttpAnswer → Prop
  | last {left : ℕ} {config : Fields} {a : HttpAnswer} :
    Alike config first → a.serverError = false ∨ left = 0 →
    Tries first left [(.send config, a)] a
  | again {left : ℕ} {config : Fields} {a b : HttpAnswer} {wires : List (Wire × HttpAnswer)} :
    Alike config first → a.serverError = true → Tries first left wires b →
    Tries first (left + 1) ((.send config, a) :: wires) b

/-- The steps are attempts of one request, answered by server errors. -/
def Unanswered (first : Fields) (wires : List (Wire × HttpAnswer)) : Prop :=
  ∀ step ∈ wires, step.2.serverError = true ∧
    ∃ config, step.1 = .send config ∧ Alike config first

theorem Tries.length_le {first : Fields} {left : ℕ} {wires : List (Wire × HttpAnswer)}
    {a : HttpAnswer} (tries : Tries first left wires a) : wires.length ≤ left + 1 := by
  induction tries with
  | last alike ends => exact Nat.le_add_left 1 _
  | again alike error rest ih => exact Nat.succ_le_succ ih

theorem Tries.alike {first : Fields} {left : ℕ} {wires : List (Wire × HttpAnswer)}
    {a : HttpAnswer} (tries : Tries first left wires a) :
    ∀ step ∈ wires, ∃ config, step.1 = .send config ∧ Alike config first := by
  induction tries with
  | last alike ends =>
    intro step here
    cases List.mem_singleton.mp here
    exact ⟨_, rfl, alike⟩
  | again alike error rest ih =>
    intro step here
    rcases List.mem_cons.mp here with rfl | later
    · exact ⟨_, rfl, alike⟩
    · exact ih step later

/-- The last answer of the attempts is the one the request settles with; it is a
server error only after all the retries. -/
theorem Tries.settled {first : Fields} {left : ℕ} {wires : List (Wire × HttpAnswer)}
    {a : HttpAnswer} (tries : Tries first left wires a) :
    ∃ before config, wires = before ++ [(.send config, a)] ∧ Unanswered first before ∧
      (a.serverError = true → before.length = left) := by
  induction tries with
  | last alike ends =>
    refine ⟨[], _, rfl, by simp [Unanswered], fun error => ?_⟩
    rcases ends with none | out
    · exact absurd (error.symm.trans none) (by simp)
    · exact out.symm
  | again alike error rest ih =>
    obtain ⟨before, config, rfl, unanswered, exhausted⟩ := ih
    refine ⟨_ :: before, config, rfl, ?_, fun failed => congrArg (· + 1) (exhausted failed)⟩
    intro step here
    rcases List.mem_cons.mp here with rfl | later
    · exact ⟨error, _, rfl, alike⟩
    · exact unanswered step later

section

variable {axios : Axios} {url data opts : Val} {config : Fields} {retries left : ℕ}
  {wires : List (Wire × HttpAnswer)} {rest : Prog Wire HttpAnswer Answer}

/-- **At most three attempts.** A run of the attempts has settled with the answer
to the last of them, or is waiting for an answer after server errors only. -/
theorem leads_attempts
    (follows : Follows (serviceClient.request axios (.str "POST") url data opts) (.flying config)
      (.sending retries)) (budget : retries + left = 2)
    (leads : Prog.Leads (attempts axios serviceClient (left + 1) config) wires rest) :
    (∃ a, rest = .ret a.settles ∧
      Tries (serviceClient.request axios (.str "POST") url data opts) left wires a) ∨
    (wires.length ≤ left ∧
      Unanswered (serviceClient.request axios (.str "POST") url data opts) wires ∧
      ∃ config resume, rest = .call (.send config) resume ∧
        Alike config (serviceClient.request axios (.str "POST") url data opts)) := by
  induction left generalizing config retries wires with
  | zero =>
    rcases leads.of_call with ⟨rfl, rfl⟩ | ⟨a, tail, rfl, after⟩
    · exact Or.inr ⟨le_rfl, by simp [Unanswered], config, _, rfl, follows.2⟩
    · have spent : (serviceClient.heard a).retried retries = false := by
        rw [retried_serviceClient, decide_eq_false (by omega), Bool.and_false]
      have settled : (Chain.flying config).hear axios serviceClient a = .settled a := by
        simp only [Chain.hear, retryAfter_eq serviceClient follows.1, spent]
        rfl
      rw [settled] at after
      obtain ⟨rfl, rfl⟩ := after.of_finished rfl
      exact Or.inl ⟨a, rfl, .last follows.2 (Or.inr rfl)⟩
  | succ left ih =>
    rcases leads.of_call with ⟨rfl, rfl⟩ | ⟨a, tail, rfl, after⟩
    · exact Or.inr ⟨Nat.zero_le _, by simp [Unanswered], config, _, rfl, follows.2⟩
    have next := follows_hear follows a
    have below : (serviceClient.heard a).retried retries = a.serverError := by
      rw [retried_serviceClient, decide_eq_true (by omega), Bool.and_true]
    rw [Progress.hear, below] at next
    cases error : a.serverError with
    | false =>
      rw [error] at next below
      cases heard : (Chain.flying config).hear axios serviceClient a with
      | flying config =>
        rw [heard] at next
        exact next.elim
      | settled b =>
        rw [heard] at after next
        obtain ⟨rfl, rfl⟩ := after.of_finished rfl
        have same : b = a := next
        subst same
        exact Or.inl ⟨b, rfl, .last follows.2 (Or.inl error)⟩
    | true =>
      rw [error] at next
      cases heard : (Chain.flying config).hear axios serviceClient a with
      | settled b =>
        rw [heard] at next
        exact next.elim
      | flying config' =>
        rw [heard] at after next
        rcases ih next (by omega) after with ⟨b, ended, tries⟩ | ⟨few, unanswered, waiting⟩
        · exact Or.inl ⟨b, ended, .again follows.2 error tries⟩
        · refine Or.inr ⟨Nat.succ_le_succ few, ?_, waiting⟩
          intro step here
          rcases List.mem_cons.mp here with rfl | later
          · exact ⟨error, config, rfl, follows.2⟩
          · exact unanswered step later

end

end GAMember
