import GAMember.Effects.Prog
import Mathlib.Data.List.Induction

/-!
# Programs interleaved over one world

A `Machine` runs any number of `Prog`s against one shared world. Its labels say
which step is taken: a new thread starts, or thread `i` performs the effect it
stands at and is resumed with the answer the world gives. Any order of labels
is a run, so a statement about all runs is a statement about all interleavings.

A thread keeps the effects it has been answered so far. That history is what
`Prog.Along` speaks about, so a fact proved once for a program holds of every
thread in every reachable configuration (`Machine.thread_along`).
-/

namespace GAMember

/-- A started program: its tag, its answered effects, and what is left of it. -/
structure Thread (τ ε α : Type) where
  tag : τ
  hist : List (ε × α)
  rest : Prog ε α Unit

structure Conf (ω τ ε α : Type) where
  world : ω
  threads : List (Thread τ ε α)

/-- One step of a machine. -/
inductive Label (τ ε α : Type)
  | start (tag : τ)
  | act (i : Nat) (e : ε) (a : α)
  deriving DecidableEq

/-- What a thread runs, how starting one changes the world, which answers the
world admits for an effect, and what the effect does to it. -/
structure Machine (ω τ ε α : Type) where
  prog : τ → Prog ε α Unit
  begin : ω → τ → ω
  allows : ω → ε → α → Bool
  after : ω → ε → α → ω

variable {ω τ ε α : Type}

/-- No thread has been started. -/
def Conf.initial (w : ω) : Conf ω τ ε α := ⟨w, []⟩

@[simp] theorem Conf.initial_world (w : ω) :
    (Conf.initial w : Conf ω τ ε α).world = w := rfl

@[simp] theorem Conf.initial_threads (w : ω) :
    (Conf.initial w : Conf ω τ ε α).threads = [] := rfl

/-- Thread `i` in a configuration. -/
def Conf.thread? (c : Conf ω τ ε α) (i : Nat) : Option (Thread τ ε α) := c.threads[i]?

/-- Every started thread has run to its end. -/
def Conf.quiet (c : Conf ω τ ε α) : Bool := c.threads.all fun t => t.rest.finished

/-- The thread after its next effect has been answered. -/
def Thread.resumed (t : Thread τ ε α) (e : ε) (a : α) (next : Prog ε α Unit) :
    Thread τ ε α :=
  ⟨t.tag, t.hist ++ [(e, a)], next⟩

/-- What thread `i` does at a label: nothing, or one answered effect. -/
def Label.at? (i : Nat) : Label τ ε α → Option (ε × α)
  | .start _ => none
  | .act j e a => if j = i then some (e, a) else none

@[simp] theorem Label.at?_start (i : Nat) (tag : τ) :
    (Label.start tag : Label τ ε α).at? i = none := rfl

@[simp] theorem Label.at?_act (i j : Nat) (e : ε) (a : α) :
    (Label.act j e a : Label τ ε α).at? i = if j = i then some (e, a) else none := rfl

namespace Machine

variable [DecidableEq ε] (m : Machine ω τ ε α)

def step (c : Conf ω τ ε α) : Label τ ε α → Option (Conf ω τ ε α)
  | .start tag => some ⟨m.begin c.world tag, c.threads ++ [⟨tag, [], m.prog tag⟩]⟩
  | .act i e a =>
      match c.thread? i with
      | none => none
      | some t =>
          match t.rest with
          | .call e' resume =>
              if e' = e ∧ m.allows c.world e a = true then
                some ⟨m.after c.world e a, c.threads.set i (t.resumed e a (resume a))⟩
              else none
          | _ => none

/-- Take the steps of `ls` in order; `none` where one of them is impossible. -/
def run (c : Conf ω τ ε α) : List (Label τ ε α) → Option (Conf ω τ ε α)
  | [] => some c
  | l :: ls => (m.step c l).bind fun c' => run c' ls

/-- Every step taken along `ls` satisfies `P`. -/
def AllSteps (P : Conf ω τ ε α → Label τ ε α → Prop) :
    Conf ω τ ε α → List (Label τ ε α) → Prop
  | _, [] => True
  | c, l :: ls =>
      match m.step c l with
      | none => True
      | some c' => P c l ∧ AllSteps P c' ls

instance AllSteps.decidable (P : Conf ω τ ε α → Label τ ε α → Prop)
    [∀ c l, Decidable (P c l)] :
    ∀ c ls, Decidable (m.AllSteps P c ls)
  | _, [] => isTrue trivial
  | c, l :: ls =>
      match h : m.step c l with
      | none => isTrue (by simp only [AllSteps, h])
      | some c' =>
          have : Decidable (m.AllSteps P c' ls) := AllSteps.decidable P c' ls
          decidable_of_iff (P c l ∧ m.AllSteps P c' ls) (by simp only [AllSteps, h])

variable {m} {c c' c'' : Conf ω τ ε α} {l : Label τ ε α} {ls ls' : List (Label τ ε α)}
  {P Q : Conf ω τ ε α → Label τ ε α → Prop}

@[simp] theorem step_start (tag : τ) :
    m.step c (.start tag) =
      some ⟨m.begin c.world tag, c.threads ++ [⟨tag, [], m.prog tag⟩]⟩ := rfl

/-- What an effect step does: thread `i` stood at the effect, the world admits
the answer, and only thread `i` moves. -/
theorem step_act {i : Nat} {e : ε} {a : α} (taken : m.step c (.act i e a) = some c') :
    ∃ t resume, c.thread? i = some t ∧ t.rest = .call e resume ∧
      m.allows c.world e a = true ∧
      c' = ⟨m.after c.world e a, c.threads.set i (t.resumed e a (resume a))⟩ := by
  simp only [step] at taken
  split at taken
  · cases taken
  · rename_i t here
    split at taken
    · rename_i e' resume rest
      split at taken
      · rename_i guard
        rcases guard with ⟨rfl, admitted⟩
        exact ⟨t, resume, here, rest, admitted, (Option.some.inj taken).symm⟩
      · cases taken
    · cases taken

@[simp] theorem run_nil : m.run c [] = some c := rfl

theorem run_cons : m.run c (l :: ls) = (m.step c l).bind fun c' => m.run c' ls := rfl

theorem run_singleton : m.run c [l] = m.step c l := by
  rw [run_cons]
  cases m.step c l <;> rfl

theorem run_append :
    m.run c (ls ++ ls') = (m.run c ls).bind fun c' => m.run c' ls' := by
  induction ls generalizing c with
  | nil => rfl
  | cons l ls ih =>
      rw [List.cons_append, run_cons, run_cons, Option.bind_assoc]
      exact congrArg _ (funext fun c' => ih)

theorem run_append_eq_some (whole : m.run c (ls ++ ls') = some c'') :
    ∃ c', m.run c ls = some c' ∧ m.run c' ls' = some c'' := by
  rw [run_append] at whole
  exact Option.bind_eq_some_iff.mp whole

/-- A step in the middle of a run, with what comes before and after it. -/
theorem run_split_eq_some (whole : m.run c (ls ++ l :: ls') = some c'') :
    ∃ d d', m.run c ls = some d ∧ m.step d l = some d' ∧ m.run d' ls' = some c'' := by
  obtain ⟨d, before, rest⟩ := run_append_eq_some whole
  obtain ⟨d', step, after⟩ := Option.bind_eq_some_iff.mp rest
  exact ⟨d, d', before, step, after⟩

theorem run_concat (before : m.run c ls = some c') (last : m.step c' l = some c'') :
    m.run c (ls ++ [l]) = some c'' := by
  rw [run_append, before, Option.bind_some, run_cons, last]
  rfl

theorem run_concat_eq_some (whole : m.run c (ls ++ [l]) = some c'') :
    ∃ c', m.run c ls = some c' ∧ m.step c' l = some c'' := by
  obtain ⟨c', d, before, last, done⟩ := run_split_eq_some whole
  cases done
  exact ⟨c', before, last⟩

/-- Induction along a run, from its first step to its last: the motive sees the
labels taken so far and the configuration they lead to. -/
theorem run_induction {motive : List (Label τ ε α) → Conf ω τ ε α → Prop}
    (first : motive [] c)
    (next : ∀ ls d l d', m.run c ls = some d → motive ls d → m.step d l = some d' →
      motive (ls ++ [l]) d')
    (taken : m.run c ls = some c') : motive ls c' := by
  induction ls using List.reverseRecOn generalizing c' with
  | nil => cases taken; exact first
  | append_singleton ls l ih =>
      obtain ⟨d, before, last⟩ := run_concat_eq_some taken
      exact next ls d l c' before (ih before) last

@[simp] theorem allSteps_nil : m.AllSteps P c [] := trivial

theorem allSteps_cons (taken : m.step c l = some c') :
    m.AllSteps P c (l :: ls) ↔ P c l ∧ m.AllSteps P c' ls := by
  simp only [AllSteps, taken]

theorem allSteps_append (taken : m.run c ls = some c') :
    m.AllSteps P c (ls ++ ls') ↔ m.AllSteps P c ls ∧ m.AllSteps P c' ls' := by
  induction ls generalizing c with
  | nil => cases taken; simp
  | cons l ls ih =>
      rw [run_cons] at taken
      obtain ⟨d, step, rest⟩ := Option.bind_eq_some_iff.mp taken
      rw [List.cons_append, allSteps_cons step, allSteps_cons step, ih rest, and_assoc]

theorem allSteps_concat (before : m.run c ls = some c') (last : m.step c' l = some c'') :
    m.AllSteps P c (ls ++ [l]) ↔ m.AllSteps P c ls ∧ P c' l := by
  rw [allSteps_append before, allSteps_cons last]
  simp

/-- A step that is possible at some point of the labels has the property there. -/
theorem allSteps_at (all : m.AllSteps P c (ls ++ l :: ls'))
    (possible : (m.run c (ls ++ [l])).isSome = true) :
    ∃ d d', m.run c ls = some d ∧ m.step d l = some d' ∧ P d l := by
  obtain ⟨d', whole⟩ := Option.isSome_iff_exists.mp possible
  obtain ⟨d, before, taken⟩ := run_concat_eq_some whole
  rw [allSteps_append before, allSteps_cons taken] at all
  exact ⟨d, d', before, taken, all.2.1⟩

theorem allSteps_iff : m.AllSteps P c ls ↔ ∀ before l after d d', ls = before ++ l :: after →
    m.run c before = some d → m.step d l = some d' → P d l := by
  constructor
  · intro all before l after d d' split reached taken
    subst split
    rw [allSteps_append reached, allSteps_cons taken] at all
    exact all.2.1
  · intro every
    induction ls generalizing c with
    | nil => trivial
    | cons l ls ih =>
        cases taken : m.step c l with
        | none => simp only [AllSteps, taken]
        | some d =>
            refine (allSteps_cons taken).mpr ⟨every [] l ls c d rfl rfl taken, ih ?_⟩
            intro before l' after d' d'' split reached taken'
            subst split
            refine every (l :: before) l' after d' d'' rfl ?_ taken'
            rw [run_cons, taken]
            exact reached

/-- Two step properties that agree on every reachable step hold along the same
label sequences. -/
theorem allSteps_congr
    (agree : ∀ ls d l d', m.run c ls = some d → m.step d l = some d' → (P d l ↔ Q d l)) :
    m.AllSteps P c ls ↔ m.AllSteps Q c ls := by
  induction ls generalizing c with
  | nil => exact Iff.rfl
  | cons l ls ih =>
      cases taken : m.step c l with
      | none => simp only [AllSteps, taken]
      | some d =>
          rw [allSteps_cons taken, allSteps_cons taken, agree [] c l d rfl taken]
          refine and_congr_right fun _ => ih fun ls d' l' d'' before => agree (l :: ls) d' l' d'' ?_
          rw [run_cons, taken]
          exact before

/-- Induction along a run whose steps all satisfy `P`. -/
theorem run_induction_of_allSteps {motive : List (Label τ ε α) → Conf ω τ ε α → Prop}
    (first : motive [] c)
    (next : ∀ ls d l d', m.run c ls = some d → motive ls d → P d l →
      m.step d l = some d' → motive (ls ++ [l]) d')
    (taken : m.run c ls = some c') (all : m.AllSteps P c ls) : motive ls c' := by
  refine run_induction (motive := fun ls d => m.AllSteps P c ls → motive ls d)
    (fun _ => first) ?_ taken all
  intro ls d l d' before ih last all
  obtain ⟨earlier, here⟩ := (allSteps_concat before last).mp all
  exact next ls d l d' before (ih earlier) here last

/-! ## Threads along a run -/

omit [DecidableEq ε] in
theorem lt_of_thread? {i : Nat} {t : Thread τ ε α} (here : c.thread? i = some t) :
    i < c.threads.length :=
  (List.getElem?_eq_some_iff.mp here).1

theorem thread?_of_start {tag : τ} (taken : m.step c (.start tag) = some c') {i : Nat}
    {t : Thread τ ε α} (here : c.thread? i = some t) : c'.thread? i = some t := by
  cases taken
  simp only [Conf.thread?]
  rw [List.getElem?_append_left (lt_of_thread? here)]
  exact here

theorem thread?_start {tag : τ} (taken : m.step c (.start tag) = some c') {i : Nat}
    {t : Thread τ ε α} (here : c'.thread? i = some t) :
    c.thread? i = some t ∨ (i = c.threads.length ∧ t = ⟨tag, [], m.prog tag⟩) := by
  cases taken
  simp only [Conf.thread?] at here ⊢
  by_cases old : i < c.threads.length
  · rw [List.getElem?_append_left old] at here
    exact Or.inl here
  · rw [List.getElem?_append_right (by omega)] at here
    have last : i = c.threads.length := by
      by_contra other
      rw [List.getElem?_eq_none (by simp only [List.length_singleton]; omega)] at here
      cases here
    subst last
    rw [Nat.sub_self] at here
    exact Or.inr ⟨rfl, (Option.some.inj here).symm⟩

omit [DecidableEq ε] in
theorem thread?_set {i j : Nat} {t : Thread τ ε α} {w : ω} (inBounds : i < c.threads.length) :
    (⟨w, c.threads.set i t⟩ : Conf ω τ ε α).thread? j =
      if i = j then some t else c.thread? j := by
  simp only [Conf.thread?, List.getElem?_set, if_pos inBounds]

/-- What a step does to the threads: each thread after it is a thread before it,
a newly started one, or the one the step resumed. -/
theorem thread?_step (taken : m.step c l = some c') {j : Nat} {t' : Thread τ ε α}
    (here : c'.thread? j = some t') :
    c.thread? j = some t' ∨
      (∃ tag, l = .start tag ∧ j = c.threads.length ∧ t' = ⟨tag, [], m.prog tag⟩) ∨
      (∃ e a t resume, l = .act j e a ∧ c.thread? j = some t ∧ t.rest = .call e resume ∧
        m.allows c.world e a = true ∧ t' = t.resumed e a (resume a)) := by
  cases l with
  | start tag =>
      rcases thread?_start taken here with old | ⟨index, new⟩
      · exact Or.inl old
      · exact Or.inr (Or.inl ⟨tag, rfl, index, new⟩)
  | act i e a =>
      obtain ⟨t, resume, before, rest, admitted, rfl⟩ := step_act taken
      rw [thread?_set (lt_of_thread? before)] at here
      split at here
      · rename_i same
        subst same
        exact Or.inr (Or.inr ⟨e, a, t, resume, rfl, before, rest, admitted,
          (Option.some.inj here).symm⟩)
      · exact Or.inl here

/-- A step keeps every thread: the tag stays and the history only grows. -/
theorem thread?_persists (taken : m.step c l = some c') {j : Nat} {t : Thread τ ε α}
    (here : c.thread? j = some t) :
    ∃ t', c'.thread? j = some t' ∧ t'.tag = t.tag ∧ t.hist <+: t'.hist := by
  cases l with
  | start tag => exact ⟨t, thread?_of_start taken here, rfl, List.prefix_refl _⟩
  | act i e a =>
      obtain ⟨moved, resume, before, -, -, rfl⟩ := step_act taken
      rw [thread?_set (lt_of_thread? before)]
      split
      · rename_i same
        subst same
        cases before.symm.trans here
        exact ⟨_, rfl, rfl, List.prefix_append _ _⟩
      · exact ⟨t, here, rfl, List.prefix_refl _⟩

theorem thread?_persists_run (taken : m.run c ls = some c') {j : Nat} {t : Thread τ ε α}
    (here : c.thread? j = some t) :
    ∃ t', c'.thread? j = some t' ∧ t'.tag = t.tag ∧ t.hist <+: t'.hist := by
  refine run_induction (m := m) (c := c)
    (motive := fun _ d => ∃ t', d.thread? j = some t' ∧ t'.tag = t.tag ∧ t.hist <+: t'.hist)
    ⟨t, here, rfl, List.prefix_refl _⟩ ?_ taken
  intro ls d l d' _ earlier last
  rcases earlier with ⟨t₁, there, tag, grown⟩
  obtain ⟨t₂, next, tag', grown'⟩ := thread?_persists last there
  exact ⟨t₂, next, tag'.trans tag, grown.trans grown'⟩

/-- A thread that has nothing left to do stays as it is. -/
theorem thread?_of_finished (taken : m.run c ls = some c') {j : Nat} {t : Thread τ ε α}
    (here : c.thread? j = some t) (ended : t.rest.head? = none) : c'.thread? j = some t := by
  refine run_induction (m := m) (c := c) (motive := fun _ d => d.thread? j = some t)
    here ?_ taken
  intro ls d l d' _ there last
  obtain ⟨t', next, -, -⟩ := thread?_persists last there
  rcases thread?_step last next with
    old | ⟨tag, -, index, -⟩ | ⟨e, a, t₀, resume, -, before, rest, -, -⟩
  · exact next.trans (old.symm.trans there)
  · exact absurd (lt_of_thread? there) (by omega)
  · cases before.symm.trans there
    rw [rest] at ended
    cases ended

/-- The history of a thread is its own part of the trace. -/
theorem hist_eq {w : ω} (taken : m.run (.initial w) ls = some c) {i : Nat}
    {t : Thread τ ε α} (here : c.thread? i = some t) :
    t.hist = ls.filterMap (Label.at? i) := by
  suffices both : ∀ j, (∀ t, c.thread? j = some t → t.hist = ls.filterMap (Label.at? j)) ∧
      (c.threads.length ≤ j → ls.filterMap (Label.at? j) = []) from (both i).1 t here
  refine run_induction (m := m) (c := .initial w)
    (motive := fun ls d => ∀ j,
      (∀ t, d.thread? j = some t → t.hist = ls.filterMap (Label.at? j)) ∧
      (d.threads.length ≤ j → ls.filterMap (Label.at? j) = [])) ?_ ?_ taken
  · intro j
    exact ⟨fun t none => by simp [Conf.thread?] at none, fun _ => rfl⟩
  · intro ls d l d' _ ih last j
    rw [List.filterMap_append, List.filterMap_cons, List.filterMap_nil]
    cases l with
    | start tag =>
        refine ⟨fun t there => ?_, fun beyond => ?_⟩
        · rcases thread?_start last there with old | ⟨rfl, rfl⟩
          · simpa using (ih j).1 t old
          · simpa using (ih _).2 (Nat.le_refl _)
        · cases last
          simp only [List.length_append, List.length_singleton] at beyond
          simpa using (ih j).2 (by omega)
    | act k e a =>
        obtain ⟨moved, resume, before, -, -, rfl⟩ := step_act last
        have inBounds := lt_of_thread? before
        refine ⟨fun t there => ?_, fun beyond => ?_⟩
        · rw [thread?_set inBounds] at there
          by_cases same : k = j
          · subst same
            rw [if_pos rfl] at there
            cases there
            simp [Thread.resumed, (ih k).1 moved before]
          · rw [if_neg same] at there
            simpa [same] using (ih j).1 t there
        · simp only [List.length_set] at beyond
          have other : k ≠ j := by omega
          simpa [other] using (ih j).2 beyond

theorem mem_of_mem_hist {w : ω} (taken : m.run (.initial w) ls = some c) {i : Nat}
    {t : Thread τ ε α} (here : c.thread? i = some t) {e : ε} {a : α} (answered : (e, a) ∈ t.hist) :
    Label.act i e a ∈ ls := by
  rw [hist_eq taken here, List.mem_filterMap] at answered
  rcases answered with ⟨l, member, at_i⟩
  cases l with
  | start tag => simp at at_i
  | act j e' a' =>
      by_cases same : j = i
      · subst same
        cases (if_pos rfl).symm.trans at_i
        exact member
      · rw [Label.at?_act, if_neg same] at at_i
        cases at_i

theorem mem_hist {w : ω} (taken : m.run (.initial w) ls = some c) {i : Nat}
    {t : Thread τ ε α} (here : c.thread? i = some t) {e : ε} {a : α}
    (member : Label.act i e a ∈ ls) : (e, a) ∈ t.hist := by
  rw [hist_eq taken here]
  exact List.mem_filterMap.mpr ⟨_, member, by simp⟩

/-- A thread runs under the tag it was started with. -/
theorem start_mem {w : ω} (taken : m.run (.initial w) ls = some c) {i : Nat}
    {t : Thread τ ε α} (here : c.thread? i = some t) : Label.start t.tag ∈ ls := by
  suffices all : ∀ i t, c.thread? i = some t → Label.start t.tag ∈ ls from all i t here
  refine run_induction (m := m) (c := .initial w)
    (motive := fun ls d => ∀ i t, d.thread? i = some t → Label.start t.tag ∈ ls) ?_ ?_ taken
  · intro i t none
    simp [Conf.thread?] at none
  · intro ls d l d' _ ih last i t there
    rcases thread?_step last there with
      old | ⟨tag, rfl, -, rfl⟩ | ⟨e, a, t₀, resume, rfl, before, -, -, rfl⟩
    · exact List.mem_append_left _ (ih i t old)
    · simp
    · exact List.mem_append_left _ (ih i t₀ before)

/-- The label's answer is one that `ok` admits for the thread it resumes. -/
def Admits (ok : τ → List (ε × α) → ε → α → Prop) (c : Conf ω τ ε α) :
    Label τ ε α → Prop
  | .start _ => True
  | .act i e a => ∀ t, c.thread? i = some t → ok t.tag t.hist e a

/-- **Facts about programs are facts about threads.** What holds along every
program from its start holds of every thread of every run whose answers are
admitted. -/
theorem thread_along (ok : τ → List (ε × α) → ε → α → Prop)
    {F : τ → List (ε × α) → Prog ε α Unit → Prop} {w : ω}
    (along : ∀ tag, Prog.Along (ok tag) (F tag) [] (m.prog tag))
    (taken : m.run (.initial w) ls = some c)
    (all : m.AllSteps (Admits ok) (.initial w) ls)
    {i : Nat} {t : Thread τ ε α} (here : c.thread? i = some t) :
    Prog.Along (ok t.tag) (F t.tag) t.hist t.rest := by
  suffices every : ∀ i t, c.thread? i = some t →
      Prog.Along (ok t.tag) (F t.tag) t.hist t.rest from every i t here
  refine run_induction_of_allSteps (m := m) (c := .initial w) (P := Admits ok)
    (motive := fun _ d => ∀ i t, d.thread? i = some t →
      Prog.Along (ok t.tag) (F t.tag) t.hist t.rest) ?_ ?_ taken all
  · intro i t none
    simp [Conf.thread?] at none
  · intro ls d l d' _ ih admitted last i t there
    rcases thread?_step last there with
      old | ⟨tag, rfl, -, rfl⟩ | ⟨e, a, t₀, resume, rfl, before, rest, -, rfl⟩
    · exact ih i t old
    · exact along tag
    · have here := ih i t₀ before
      rw [rest] at here
      exact here.next (admitted t₀ before)

/-- The same for facts that hold whatever the answers are. -/
theorem thread_along_any {F : τ → List (ε × α) → Prog ε α Unit → Prop} {w : ω}
    (along : ∀ tag, Prog.Along (fun _ _ _ => True) (F tag) [] (m.prog tag))
    (taken : m.run (.initial w) ls = some c) {i : Nat} {t : Thread τ ε α}
    (here : c.thread? i = some t) :
    Prog.Along (fun _ _ _ => True) (F t.tag) t.hist t.rest := by
  refine thread_along (fun _ _ _ _ => True) along taken ?_ here
  refine run_induction (m := m) (c := .initial w)
    (motive := fun ls _ => m.AllSteps (Admits fun _ _ _ _ => True) (.initial w) ls)
    trivial ?_ taken
  intro ls d l d' before ih last
  refine (allSteps_concat before last).mpr ⟨ih, ?_⟩
  cases l with
  | start tag => trivial
  | act i e a => exact fun _ _ => trivial

end Machine

end GAMember
