import GAMember.Js.Object

/-!
# From a call to request options

The four proxy methods of the HTTP client take their arguments in two forms,
one after another or as one object; `parseArgs` brings them together and
`request` turns them into the options axios is called with.

`callsAgree_iff` says when these options keep what the caller supplied. They lose
it in two ways: the default body takes the place of `params` or `data` in `opts`,
and a method from `opts` is compared with `'get'` as it is written.
-/

namespace GAMember

/-- `s.toLowerCase()`. No character outside ASCII has a lower case in `get`. -/
def toLowerCase (s : String) : String := String.ofList (s.toList.map Char.toLower)

/-! ## Building the options -/

/-- `parseArgs(args)`: the url, the data and the options of a call. -/
def parseArgs (args : List Val) : Option (Val × Val × Val) :=
  match args.headD .undefined with
  | .str url => some (.str url, args.getD 1 .undefined, args.getD 2 .undefined)
  | d => do
      let url ← d.prop "url"
      let data ← d.prop "data"
      let opts ← d.prop "opts"
      pure (url, data, opts)

/-- The options that `request(type, url, data, opts)` calls axios with. A `type`
that is no text is the options itself. -/
def requestOptions (type url data opts : Val) : Val :=
  match type with
  | .str type =>
      let options :=
        (Fields.ofList [("method", .str (toLowerCase type)), ("url", url)]).assign
          (opts.orDefault (.object [])).own
      let data := data.orDefault (.object [])
      if options.get "method" = .str "get" then .obj (options.insert "params" data)
      else .obj (options.insert "data" data)
  | options => options

/-- A proxy method of the client: what it hands to axios, `none` where
`parseArgs` throws. -/
def proxyMethod (type : String) (args : List Val) : Option Val :=
  (parseArgs args).map fun (url, data, opts) => requestOptions (.str type) url data opts

def Http.get : List Val → Option Val := proxyMethod "GET"

def Http.post : List Val → Option Val := proxyMethod "POST"

def Http.put : List Val → Option Val := proxyMethod "PUT"

def Http.delete : List Val → Option Val := proxyMethod "DELETE"

/-! ## The two forms of a call -/

/-- The proxy methods. -/
inductive Verb
  | get
  | post
  | put
  | delete
  deriving DecidableEq

def Verb.type : Verb → String
  | .get => "GET"
  | .post => "POST"
  | .put => "PUT"
  | .delete => "DELETE"

def Verb.call : Verb → List Val → Option Val
  | .get => Http.get
  | .post => Http.post
  | .put => Http.put
  | .delete => Http.delete

theorem Verb.call_eq (verb : Verb) : verb.call = proxyMethod verb.type := by
  cases verb <;> rfl

/-- The positional form; what is omitted at the end is not passed at all. -/
def positional (url : String) : Option Val → Option Val → List Val
  | none, none => [.str url]
  | some data, none => [.str url, data]
  | data, some opts => [.str url, data.getD .undefined, opts]

/-- The object form. -/
def inObject (url : String) (data opts : Option Val) : List Val :=
  [.object (("url", .str url) :: (data.toList.map fun v => ("data", v)) ++
    opts.toList.map fun v => ("opts", v))]

section

variable (url : String) (data opts : Option Val)

theorem parseArgs_positional : parseArgs (positional url data opts) =
    some (.str url, data.getD .undefined, opts.getD .undefined) := by
  cases data with
  | none => cases opts <;> rfl
  | some _ => cases opts <;> rfl

theorem parseArgs_inObject : parseArgs (inObject url data opts) =
    some (.str url, data.getD .undefined, opts.getD .undefined) := by
  cases data with
  | none => cases opts <;> rfl
  | some _ => cases opts <;> rfl

/-- The options of a call in either form. -/
def Verb.options (verb : Verb) : Val :=
  requestOptions (.str verb.type) (.str url) (data.getD .undefined) (opts.getD .undefined)

theorem call_positional (verb : Verb) :
    verb.call (positional url data opts) = some (verb.options url data opts) := by
  rw [Verb.call_eq, proxyMethod, parseArgs_positional]
  rfl

theorem call_inObject (verb : Verb) :
    verb.call (inObject url data opts) = some (verb.options url data opts) := by
  rw [Verb.call_eq, proxyMethod, parseArgs_inObject]
  rfl

end

/-- A key that `request` has no business with is the one of `opts`. -/
theorem find?_requestOptions {type key : String}
    (other : key ∉ ["method", "url", "params", "data"]) (url data : Val) (opts : Val) :
    (requestOptions (.str type) url data opts).own.find? key =
      (opts.orDefault (.object [])).own.find? key := by
  simp only [List.mem_cons, List.not_mem_nil, or_false, not_or] at other
  rcases other with ⟨notMethod, notUrl, notParams, notData⟩
  unfold requestOptions
  dsimp only
  split
  · rw [Val.own_obj, Fields.find?_insert_of_ne (Ne.symm notParams), Fields.find?_assign]
    simp [Ne.symm notMethod, Ne.symm notUrl]
  · rw [Val.own_obj, Fields.find?_insert_of_ne (Ne.symm notData), Fields.find?_assign]
    simp [Ne.symm notMethod, Ne.symm notUrl]

/-! ## What the caller supplied -/

/-- The entries of the options of a call. -/
def optsEntries (opts : Option Val) : Fields := (opts.getD .undefined).own

/-- The method of a call: the one in its options, or the name of the proxy. -/
def Verb.method (verb : Verb) (opts : Option Val) : Val :=
  ((optsEntries opts).find? "method").getD (.str (toLowerCase verb.type))

/-- The method is GET, in upper or lower case. -/
def Val.isGet : Val → Bool
  | .str s => toLowerCase s = "get"
  | _ => false

/-- Where the data of a call belongs: its query or its body. -/
def Verb.place (verb : Verb) (opts : Option Val) : String :=
  if (verb.method opts).isGet then "params" else "data"

/-- The one of the two places where the data of a call does not belong. -/
def Verb.otherPlace (verb : Verb) (opts : Option Val) : String :=
  if (verb.method opts).isGet then "data" else "params"

/-- The data a call is given; an explicit `undefined` is none. -/
def givenData (data : Option Val) : Option Val := data.filter (· ≠ .undefined)

/-- The options hold all that the caller supplied: the method and the url unless
`opts` has its own, the data in its place and nowhere else, and every entry of
`opts` but one that given data replaces. -/
structure Lossless (verb : Verb) (url : String) (data opts : Option Val) (options : Fields) :
    Prop where
  method : options.find? "method" = some (verb.method opts)
  url : options.find? "url" = some (((optsEntries opts).find? "url").getD (.str url))
  placed : ∀ v, givenData data = some v → options.find? (verb.place opts) = some v ∧
    options.find? (verb.otherPlace opts) = (optsEntries opts).find? (verb.otherPlace opts)
  kept : ∀ key v, (optsEntries opts).find? key = some v →
    options.find? key = some v ∨ (key = verb.place opts ∧ (givenData data).isSome = true)

/-- The two forms of a call agree, and the options lose nothing. -/
def CallsAgree (verb : Verb) (url : String) (data opts : Option Val) : Prop :=
  verb.call (positional url data opts) = verb.call (inObject url data opts) ∧
    ∃ options, verb.call (positional url data opts) = some (.obj options) ∧
      Lossless verb url data opts options

/-- The place `request` puts the data of a call in. -/
def Verb.written (verb : Verb) (opts : Option Val) : String :=
  if verb.method opts = .str "get" then "params" else "data"

/-- With data, the method is not a GET in other than lower case, unless `opts`
has the same data in both places already. Without data, `opts` has nothing where
the empty default is put, or an empty object itself. -/
def keepsSupplied (verb : Verb) (data opts : Option Val) : Bool :=
  match givenData data with
  | some v =>
      verb.method opts = .str "get" || !(verb.method opts).isGet ||
        ((optsEntries opts).find? "params" = some v && (optsEntries opts).find? "data" = some v)
  | none => ((optsEntries opts).find? (verb.written opts)).all (· = .object [])

/-- The data `request` puts there. -/
def writtenData (data : Option Val) : Val := (givenData data).getD (.object [])

/-- The entries a call starts from. -/
def Verb.baseEntries (verb : Verb) (url : String) : Fields :=
  .ofList [("method", .str (toLowerCase verb.type)), ("url", .str url)]

/-- The entries of the options of a call. -/
def Verb.entries (verb : Verb) (url : String) (data opts : Option Val) : Fields :=
  ((verb.baseEntries url).assign (optsEntries opts)).insert (verb.written opts) (writtenData data)

section

variable (verb : Verb) (url : String) (data opts : Option Val)

theorem own_orDefault : ((opts.getD .undefined).orDefault (.object [])).own = optsEntries opts := by
  by_cases given : opts.getD .undefined = .undefined
  · rw [optsEntries, given]
    rfl
  · rw [Val.orDefault_of_ne given, optsEntries]

theorem data_orDefault :
    (data.getD .undefined).orDefault (.object []) = writtenData data := by
  cases data with
  | none => rfl
  | some v =>
    rw [Option.getD_some, writtenData, givenData]
    by_cases given : v = .undefined
    · subst given
      rfl
    · rw [Val.orDefault_of_ne given, Option.filter_some, if_pos (by simpa using given)]
      rfl

theorem get_method : ((verb.baseEntries url).assign (optsEntries opts)).get "method" =
    verb.method opts := by
  rw [Fields.get, Fields.find?_assign, Verb.method]
  cases (optsEntries opts).find? "method" with
  | none => rfl
  | some _ => rfl

theorem options_eq : verb.options url data opts = .obj (verb.entries url data opts) := by
  unfold Verb.options requestOptions
  dsimp only
  rw [own_orDefault, data_orDefault, ← Verb.baseEntries, get_method, Verb.entries, Verb.written]
  split
  · rfl
  · rfl

theorem find?_entries_written :
    (verb.entries url data opts).find? (verb.written opts) = some (writtenData data) :=
  Fields.find?_insert_self _ _ _

/-- Every other entry is the one of `opts`, or one that the call starts from. -/
theorem find?_entries_of_ne {key : String} (ne : verb.written opts ≠ key) :
    (verb.entries url data opts).find? key =
      ((optsEntries opts).find? key).or ((verb.baseEntries url).find? key) := by
  rw [Verb.entries, Fields.find?_insert_of_ne ne, Fields.find?_assign]

theorem written_eq : verb.written opts = "params" ∨ verb.written opts = "data" := by
  unfold Verb.written
  split
  · exact Or.inl rfl
  · exact Or.inr rfl

theorem written_ne {key : String} (notParams : "params" ≠ key) (notData : "data" ≠ key) :
    verb.written opts ≠ key := by
  rcases written_eq verb opts with same | same
  · rwa [same]
  · rwa [same]

/-- The data is put where it belongs, unless the method is a GET that is not
written in lower case. -/
theorem written_eq_place :
    verb.written opts = verb.place opts ↔
      verb.method opts = .str "get" ∨ (verb.method opts).isGet = false := by
  unfold Verb.written Verb.place
  by_cases literal : verb.method opts = .str "get"
  · have get : (Val.str "get").isGet = true := by decide
    simp [literal, get]
  · cases get : (verb.method opts).isGet <;> simp [literal]

theorem written_eq_otherPlace (misplaced : verb.written opts ≠ verb.place opts) :
    verb.written opts = verb.otherPlace opts := by
  rw [ne_eq, written_eq_place, not_or, Bool.not_eq_false] at misplaced
  rw [Verb.written, Verb.otherPlace, if_neg misplaced.1, if_pos misplaced.2]

theorem place_ne_otherPlace : verb.place opts ≠ verb.otherPlace opts := by
  unfold Verb.place Verb.otherPlace
  split
  · decide
  · decide

theorem base_place : (verb.baseEntries url).find? (verb.place opts) = none := by
  unfold Verb.place
  split
  · rfl
  · rfl

theorem base_otherPlace : (verb.baseEntries url).find? (verb.otherPlace opts) = none := by
  unfold Verb.otherPlace
  split
  · rfl
  · rfl

theorem entries_method :
    (verb.entries url data opts).find? "method" = some (verb.method opts) := by
  rw [find?_entries_of_ne _ _ _ _ (written_ne verb opts (by decide) (by decide)), Verb.method]
  cases (optsEntries opts).find? "method" with
  | none => rfl
  | some _ => rfl

theorem entries_url : (verb.entries url data opts).find? "url" =
    some (((optsEntries opts).find? "url").getD (.str url)) := by
  rw [find?_entries_of_ne _ _ _ _ (written_ne verb opts (by decide) (by decide))]
  cases (optsEntries opts).find? "url" with
  | none => rfl
  | some _ => rfl

/-- With data the call keeps everything where the data is put in its place, or was
in both places before. -/
theorem keepsSupplied_of_given {v : Val} (given : givenData data = some v) :
    keepsSupplied verb data opts = true ↔ (verb.written opts ≠ verb.place opts →
      (optsEntries opts).find? (verb.place opts) = some v ∧
        (optsEntries opts).find? (verb.otherPlace opts) = some v) := by
  rw [← or_iff_not_imp_left, written_eq_place, keepsSupplied, given, Verb.place, Verb.otherPlace]
  cases get : (verb.method opts).isGet with
  | true => simp
  | false => simp

theorem keepsSupplied_of_omitted (omitted : givenData data = none) :
    keepsSupplied verb data opts = true ↔
      ∀ v, (optsEntries opts).find? (verb.written opts) = some v → v = .object [] := by
  rw [keepsSupplied, omitted]
  simp [Option.all_eq_true]

/-- An entry of `opts` under another key than the one written is kept. -/
theorem entries_kept {key : String} {v : Val} (ne : verb.written opts ≠ key)
    (supplied : (optsEntries opts).find? key = some v) :
    (verb.entries url data opts).find? key = some v := by
  rw [find?_entries_of_ne _ _ _ _ ne, supplied]
  rfl

theorem lossless_of_keepsSupplied (keeps : keepsSupplied verb data opts = true) :
    Lossless verb url data opts (verb.entries url data opts) := by
  refine ⟨entries_method _ _ _ _, entries_url _ _ _ _, fun v given => ?_, fun key v supplied => ?_⟩
  · have value : writtenData data = v := by rw [writtenData, given, Option.getD_some]
    have misplaced := (keepsSupplied_of_given verb data opts given).mp keeps
    by_cases same : verb.written opts = verb.place opts
    · rw [← same, find?_entries_written, value,
        find?_entries_of_ne _ _ _ _ (same ▸ place_ne_otherPlace verb opts), base_otherPlace,
        Option.or_none]
      exact ⟨rfl, rfl⟩
    · refine ⟨entries_kept verb url data opts same (misplaced same).1, ?_⟩
      rw [(misplaced same).2, ← written_eq_otherPlace verb opts same, find?_entries_written, value]
  · by_cases other : verb.written opts = key
    · subst other
      rw [find?_entries_written]
      cases given : givenData data with
      | none =>
        have empty := (keepsSupplied_of_omitted verb data opts given).mp keeps v supplied
        rw [writtenData, given, empty]
        exact Or.inl rfl
      | some w =>
        by_cases same : verb.written opts = verb.place opts
        · exact Or.inr ⟨same, rfl⟩
        · have both := (keepsSupplied_of_given verb data opts given).mp keeps same
          rw [written_eq_otherPlace verb opts same, both.2] at supplied
          rw [writtenData, given]
          exact Or.inl supplied
    · exact Or.inl (entries_kept verb url data opts other supplied)

theorem keepsSupplied_of_lossless (lossless : Lossless verb url data opts
    (verb.entries url data opts)) : keepsSupplied verb data opts = true := by
  rcases lossless with ⟨-, -, placed, kept⟩
  cases given : givenData data with
  | none =>
    refine (keepsSupplied_of_omitted verb data opts given).mpr fun v supplied => ?_
    rcases kept _ v supplied with held | ⟨-, some⟩
    · rw [find?_entries_written, writtenData, given] at held
      exact (Option.some.inj held).symm
    · rw [given] at some
      cases some
  | some v =>
    refine (keepsSupplied_of_given verb data opts given).mpr fun same => ?_
    obtain ⟨here, elsewhere⟩ := placed v given
    have other := written_eq_otherPlace verb opts same
    rw [find?_entries_of_ne _ _ _ _ same, base_place, Option.or_none] at here
    rw [← other, find?_entries_written, writtenData, given, other] at elsewhere
    exact ⟨here, elsewhere.symm⟩

end

/-- **The two forms of a call agree and lose nothing exactly when** the place that
`request` writes to is the right one and holds nothing else of the caller's. -/
theorem callsAgree_iff (verb : Verb) (url : String) (data opts : Option Val) :
    CallsAgree verb url data opts ↔ keepsSupplied verb data opts = true := by
  rw [CallsAgree, call_positional, call_inObject, options_eq]
  constructor
  · intro agree
    rcases agree with ⟨-, options, same, lossless⟩
    cases same
    exact keepsSupplied_of_lossless verb url data opts lossless
  · intro keeps
    exact ⟨rfl, _, rfl, lossless_of_keepsSupplied verb url data opts keeps⟩

/-- The parameters of a GET are lost: the empty default takes their place. -/
theorem not_callsAgree_params :
    ¬ CallsAgree .get "users" none (some (.object [("params", .object [("page", .num 2)])])) := by
  intro agree
  rcases agree with ⟨-, options, sent, lossless⟩
  have built : Verb.get.call (positional "users" none
      (some (.object [("params", .object [("page", .num 2)])]))) =
        some (.object [("method", .str "get"), ("url", .str "users"), ("params", .object [])]) := by
    decide
  rw [built] at sent
  cases sent
  rcases lossless.kept "params" (.object [("page", .num 2)]) (by decide) with held | given
  · exact absurd held (by decide)
  · exact absurd given.2 (by decide)

/-- A GET in upper case carries its data in the body. -/
example : Http.post [.str "users", .str "q", .object [("method", .str "GET")]] =
    some (.object [("method", .str "GET"), ("url", .str "users"), ("data", .str "q")]) := by
  decide

end GAMember
