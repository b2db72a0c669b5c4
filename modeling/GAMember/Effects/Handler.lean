import GAMember.Effects.Prog

/-!
# Effects performed by programs

A handler performs each effect of one kind by a program over effects of another
kind, and `Prog.interpret` runs a whole program that way. What the program does is
then only seen through the runs of its handlers.

* `Prog.Leads`: what a program is left with after some answered effects.
* `Prog.Expands`: a trace, and the trace of the handler programs that performed it.
* `Prog.leads_interpret`: a run of the interpreted program is the expansion of a
  run of the program itself, up to one handler program still under way.
-/

namespace GAMember

namespace Prog

variable {ε α ε' α' ρ σ : Type}

/-- Answered along `tr`, the program is left with `q`. -/
inductive Leads : Prog ε α ρ → List (ε × α) → Prog ε α ρ → Prop
  | refl (p : Prog ε α ρ) : Leads p [] p
  | step {e : ε} {resume : α → Prog ε α ρ} {a : α} {tr : List (ε × α)} {q : Prog ε α ρ} :
    Leads (resume a) tr q → Leads (.call e resume) ((e, a) :: tr) q

section

variable {p q s : Prog ε α ρ} {e : ε} {resume : α → Prog ε α ρ} {a : α}
  {tr tr' : List (ε × α)}

theorem Leads.trans (first : Leads p tr q) (second : Leads q tr' s) : Leads p (tr ++ tr') s := by
  induction first with
  | refl p => exact second
  | step rest ih => exact .step (ih second)

/-- The first part of a run is a run. -/
theorem Leads.of_append (leads : Leads p (tr ++ tr') q) : ∃ s, Leads p tr s := by
  induction tr generalizing p with
  | nil => exact ⟨p, .refl p⟩
  | cons head tail ih =>
    cases leads with
    | step rest => exact (ih rest).imp fun _ => .step

/-- A program without effects is left as it is. -/
theorem Leads.of_finished (leads : Leads p tr q) (ended : p.finished = true) :
    tr = [] ∧ q = p := by
  cases leads with
  | refl p => exact ⟨rfl, rfl⟩
  | step rest => cases ended

/-- What a first step leaves. -/
theorem Leads.of_call (leads : Leads (.call e resume) tr q) :
    (tr = [] ∧ q = .call e resume) ∨ ∃ a tail, tr = (e, a) :: tail ∧ Leads (resume a) tail q := by
  cases leads with
  | refl p => exact Or.inl ⟨rfl, rfl⟩
  | step rest => exact Or.inr ⟨_, _, rfl, rest⟩

theorem Leads.of_nil (leads : Leads p [] q) : q = p := by
  cases leads
  rfl

/-- The last step of a run, at the effect it answers. -/
theorem Leads.of_concat (leads : Leads p (tr ++ [(e, a)]) q) :
    ∃ resume, Leads p tr (.call e resume) ∧ q = resume a := by
  induction tr generalizing p with
  | nil =>
    cases leads with
    | step rest => exact ⟨_, .refl _, rest.of_nil⟩
  | cons head tail ih =>
    cases leads with
    | step rest =>
      obtain ⟨resume, before, same⟩ := ih rest
      exact ⟨resume, .step before, same⟩

/-- What the program is left with after the answered effects, if they are a run. -/
def after? [DecidableEq ε] : Prog ε α ρ → List (ε × α) → Option (Prog ε α ρ)
  | p, [] => some p
  | .call e resume, (e', a) :: tr => if e = e' then (resume a).after? tr else none
  | _, _ :: _ => none

theorem Leads.of_after? [DecidableEq ε] (left : p.after? tr = some q) : Leads p tr q := by
  induction tr generalizing p with
  | nil =>
    cases p <;> cases left <;> exact .refl _
  | cons step tr ih =>
    cases p with
    | ret r => cases left
    | thrown => cases left
    | call e resume =>
      rw [after?] at left
      split at left
      · rename_i same
        subst same
        exact .step (ih left)
      · cases left

/-- What holds along a program holds along all it can lead to. -/
theorem Along.after {P : List (ε × α) → Prog ε α ρ → Prop} {past : List (ε × α)}
    (along : Along (fun _ _ _ => True) P past p) (leads : Leads p tr q) :
    Along (fun _ _ _ => True) P (past ++ tr) q := by
  induction leads generalizing past with
  | refl p => exact (List.append_nil past).symm ▸ along
  | step rest ih =>
    rw [List.append_cons]
    exact ih (along.next trivial)

theorem Along.of_leads {P : List (ε × α) → Prog ε α ρ → Prop} {past : List (ε × α)}
    (along : Along (fun _ _ _ => True) P past p) (leads : Leads p tr q) : P (past ++ tr) q :=
  (along.after leads).here

end

/-- A run of a sequence is still in its first part, or has left it with a result. -/
theorem Leads.of_bind {p : Prog ε α ρ} {next : ρ → Prog ε α σ} {tr : List (ε × α)}
    {q : Prog ε α σ} (leads : Leads (p >>= next) tr q) :
    (∃ p', Leads p tr p' ∧ (∀ r, p' ≠ .ret r) ∧ q = (p' >>= next)) ∨
      ∃ tr₁ tr₂ r, tr = tr₁ ++ tr₂ ∧ Leads p tr₁ (.ret r) ∧ Leads (next r) tr₂ q := by
  induction p generalizing tr with
  | ret r => exact Or.inr ⟨[], tr, r, rfl, .refl _, leads⟩
  | thrown =>
    obtain ⟨rfl, rfl⟩ := leads.of_finished rfl
    exact Or.inl ⟨.thrown, .refl _, by simp, rfl⟩
  | call e resume ih =>
    rcases leads.of_call with ⟨rfl, rfl⟩ | ⟨a, tail, rfl, rest⟩
    · exact Or.inl ⟨.call e resume, .refl _, by simp, rfl⟩
    · rcases ih a rest with ⟨p', inside, unanswered, rfl⟩ | ⟨tr₁, tr₂, r, rfl, inside, after⟩
      · exact Or.inl ⟨p', .step inside, unanswered, rfl⟩
      · exact Or.inr ⟨(e, a) :: tr₁, tr₂, r, rfl, .step inside, after⟩

theorem Leads.bind {p p' : Prog ε α ρ} {tr : List (ε × α)} (leads : Leads p tr p')
    (next : ρ → Prog ε α σ) : Leads (p >>= next) tr (p' >>= next) := by
  induction leads with
  | refl p => exact .refl _
  | step rest ih => exact .step ih

/-! ## Interpretation -/

/-- Perform every effect of a program by the handler's program for it. -/
def interpret (handler : ε → Prog ε' α' α) : Prog ε α ρ → Prog ε' α' ρ
  | .ret r => .ret r
  | .thrown => .thrown
  | .call e resume => handler e >>= fun a => interpret handler (resume a)

variable {handler : ε → Prog ε' α' α}

@[simp] theorem interpret_ret (r : ρ) : interpret handler (.ret r) = .ret r := rfl

@[simp] theorem interpret_thrown :
    interpret handler (.thrown : Prog ε α ρ) = .thrown := rfl

@[simp] theorem interpret_call (e : ε) (resume : α → Prog ε α ρ) :
    interpret handler (.call e resume) =
      (handler e >>= fun a => interpret handler (resume a)) := rfl

/-- The trace, effect by effect, and the runs of the handler that performed it. -/
inductive Expands (handler : ε → Prog ε' α' α) : List (ε × α) → List (ε' × α') → Prop
  | nil : Expands handler [] []
  | cons {e : ε} {a : α} {wire : List (ε' × α')} {tr : List (ε × α)} {wires : List (ε' × α')} :
    Leads (handler e) wire (.ret a) → Expands handler tr wires →
    Expands handler ((e, a) :: tr) (wire ++ wires)

/-- Where the interpretation of `q` stands after `wire`: at the beginning of an
ended program, or inside the handler's program for its next effect. -/
inductive Performing (handler : ε → Prog ε' α' α) :
    Prog ε α ρ → List (ε' × α') → Prog ε' α' ρ → Prop
  | ended {q : Prog ε α ρ} : q.finished = true → Performing handler q [] (interpret handler q)
  | inside {e : ε} {resume : α → Prog ε α ρ} {wire : List (ε' × α')} {h : Prog ε' α' α} :
    Leads (handler e) wire h → (∀ a, h ≠ .ret a) →
    Performing handler (.call e resume) wire (h >>= fun a => interpret handler (resume a))

/-- **A run of the interpreted program expands a run of the program.** What has
been performed completely is answered as the handler's programs returned. -/
theorem leads_interpret {p : Prog ε α ρ} {wires : List (ε' × α')} {q' : Prog ε' α' ρ}
    (leads : Leads (interpret handler p) wires q') :
    ∃ tr q done wire, wires = done ++ wire ∧ Leads p tr q ∧ Expands handler tr done ∧
      Performing handler q wire q' := by
  induction p generalizing wires with
  | ret r =>
    obtain ⟨rfl, rfl⟩ := leads.of_finished rfl
    exact ⟨[], .ret r, [], [], rfl, .refl _, .nil, .ended rfl⟩
  | thrown =>
    obtain ⟨rfl, rfl⟩ := leads.of_finished rfl
    exact ⟨[], .thrown, [], [], rfl, .refl _, .nil, .ended rfl⟩
  | call e resume ih =>
    rw [interpret_call] at leads
    rcases leads.of_bind with ⟨h, inside, unanswered, rfl⟩ | ⟨wire, rest, a, rfl, answered, after⟩
    · exact ⟨[], .call e resume, [], wires, rfl, .refl _, .nil, .inside inside unanswered⟩
    · obtain ⟨tr, q, done, last, rfl, follows, expands, performing⟩ := ih a after
      exact ⟨(e, a) :: tr, q, wire ++ done, last, (List.append_assoc _ _ _).symm, .step follows,
        .cons answered expands, performing⟩

end Prog

end GAMember
