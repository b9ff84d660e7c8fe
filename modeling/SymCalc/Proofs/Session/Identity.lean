import SymCalc.Proofs.Expr.Remembering
import SymCalc.Session

/-!
# Functions keep their numbers

**Theorem (`session_identity`).** Carry out any steps, starting with no function. The functions are
numbered 1, 2, 3 and so on in the order in which they are made, and a step that fails makes no
function and uses up no number. Each function is made with the text that it shows from then on, and
its values and its samples stay the same as well, whatever other steps come in between.

What a step can do is said once (`Happens`, `happens_run`): it draws a number and appends one
function with it, or it leaves the functions and the counter as they are. So the next number is
always one more than there are functions (`wellNumbered_runAll`). The functions of a session only
become more (`functions_prefix_runAll`), and a question about one of them finds the same one. What
is remembered about simplified forms affects no answer (`dependsOnFunctions_run`).
-/

namespace SymCalc.Session

variable {settings : Settings} {s s' : Session} {step q : Step} {steps : List Step} {id : ℤ}
  {f : NumberedFormula} {n : ℕ}

/-! ## Steps and answers -/

/-- Whether the step makes a function if it does not fail. -/
def Step.makes : Step → Bool
  | make _ | derivative _ | simplified _ => true
  | _ => false

/-- The step asks about the text, a value or samples of the function with this number. -/
inductive Step.AsksAbout (id : ℤ) : Step → Prop
  | evaluate (x : Float) : AsksAbout id (.evaluate id x)
  | show : AsksAbout id (.show id)
  | sample (first last : Float) (count : Literal) : AsksAbout id (.sample id first last count)

/-- The number of the function that was made. -/
def Answer.number? : Answer → Option ℕ
  | made id _ => some id
  | _ => none

/-- The numbers of the functions that were made. -/
def numbers (answers : List (Except Error Answer)) : List ℕ :=
  answers.filterMap fun answer => answer.toOption.bind Answer.number?

theorem numbers_of_number?_eq_none {answer : Answer} {answers : List (Except Error Answer)}
    (h : answer.number? = none) : numbers (.ok answer :: answers) = numbers answers :=
  List.filterMap_cons_none h

/-- Carries out steps one after the other, also after a failure. -/
def runAll (settings : Settings) (steps : List Step) :
    StateM Session (List (Except Error Answer)) :=
  steps.mapM fun step => (run settings step).run

theorem runAll_cons (settings : Settings) (step : Step) (steps : List Step) (s : Session) :
    runAll settings (step :: steps) s =
      ((run settings step s).1 :: (runAll settings steps (run settings step s).2).1,
        (runAll settings steps (run settings step s).2).2) :=
  mapM_run_cons _ _ _ _

theorem runAll_append (settings : Settings) (steps later : List Step) (s : Session) :
    (runAll settings (steps ++ later) s).2 =
      (runAll settings later (runAll settings steps s).2).2 := by
  induction steps generalizing s with
  | nil => rfl
  | cons step steps ih =>
    rw [List.cons_append, runAll_cons, runAll_cons]
    exact ih _

/-! ## What a step can do -/

/-- What a step answers in a session, and which session it leaves. -/
inductive Happens (step : Step) (s : Session) : Except Error Answer × Session → Prop
  | made (hstep : step.makes) (f : Formula) (m : Memo) :
      Happens step s
        (.ok (.made s.nextId (NumberedFormula.text ⟨s.nextId, f⟩)),
          ⟨s.functions ++ [⟨s.nextId, f⟩], s.nextId + 1, m⟩)
  | answered (hstep : step.makes = false) {answer : Answer}
      (hnumber : answer.number? = none) (m : Memo) :
      Happens step s (.ok answer, { s with memo := m })
  | failed (err : Error) (m : Memo) : Happens step s (.error err, { s with memo := m })

/-- The action changes nothing but what is remembered. -/
def LeavesFunctions {α : Type} (x : Action α) : Prop :=
  ∀ s, ∃ m, (x s).2 = { s with memo := m }

section

variable {α : Type}

theorem leavesFunctions_lift (x : Except Error α) : LeavesFunctions (liftM x : Action α) :=
  fun s => ⟨s.memo, rfl⟩

theorem leavesFunctions_lookup (id : ℤ) : LeavesFunctions (lookup id) := by
  intro s
  rw [lookup]
  cases s.find? id <;> exact ⟨s.memo, rfl⟩

theorem leavesFunctions_tidy (ε : Float) (f : Formula) : LeavesFunctions (tidy ε f) :=
  fun _ => ⟨_, rfl⟩

/-- What a step does rests on the functions and the counter. -/
theorem Happens.of_memo {result : Except Error Answer × Session} {m : Memo}
    (h : Happens step { s with memo := m } result) : Happens step s result := by
  cases h with
  | made hstep f m => exact .made hstep f m
  | answered hstep hnumber m => exact .answered hstep hnumber m
  | failed err m => exact .failed err m

theorem happens_define (hstep : step.makes) (f : Formula) (s : Session) :
    Happens step s (define f s) :=
  .made hstep f s.memo

theorem happens_pure (hstep : step.makes = false) {answer : Answer}
    (hnumber : answer.number? = none) (s : Session) :
    Happens step s ((pure answer : Action Answer) s) :=
  .answered hstep hnumber s.memo

theorem LeavesFunctions.happens_bind {x : Action α} {g : α → Action Answer}
    (hx : LeavesFunctions x) (hg : ∀ a s, Happens step s (g a s)) (s : Session) :
    Happens step s ((x >>= g) s) := by
  obtain ⟨m, hm⟩ := hx s
  rw [bind_apply]
  rcases hxs : x s with ⟨err | a, s'⟩
  · obtain rfl : s' = { s with memo := m } := by rw [← hm, hxs]
    exact .failed err m
  · obtain rfl : s' = { s with memo := m } := by rw [← hm, hxs]
    exact (hg a _).of_memo

end

/-- **A step makes one function or none.** -/
theorem happens_run (settings : Settings) (step : Step) (s : Session) :
    Happens step s (run settings step s) := by
  cases step with
  | make source => exact (leavesFunctions_lift _).happens_bind (happens_define rfl) s
  | derivative id =>
    refine (leavesFunctions_lookup id).happens_bind (fun f => ?_) s
    refine (leavesFunctions_lift _).happens_bind fun d => ?_
    exact (leavesFunctions_tidy _ d).happens_bind (happens_define rfl)
  | simplified id =>
    refine (leavesFunctions_lookup id).happens_bind (fun f => ?_) s
    exact (leavesFunctions_tidy _ f.formula).happens_bind (happens_define rfl)
  | evaluate id x =>
    refine (leavesFunctions_lookup id).happens_bind (fun f => ?_) s
    exact (leavesFunctions_lift _).happens_bind fun y => happens_pure rfl rfl
  | «show» id =>
    refine (leavesFunctions_lookup id).happens_bind (fun f => ?_) s
    refine (leavesFunctions_lift _).happens_bind fun plain => ?_
    exact (leavesFunctions_lift _).happens_bind fun text => happens_pure rfl rfl
  | sample id first last count =>
    refine (leavesFunctions_lookup id).happens_bind (fun f => ?_) s
    exact (leavesFunctions_lift _).happens_bind fun ps => happens_pure rfl rfl
  | equal id other =>
    refine (leavesFunctions_lookup id).happens_bind (fun f => ?_) s
    refine (leavesFunctions_lookup other).happens_bind fun g => ?_
    refine (leavesFunctions_lift _).happens_bind fun text => ?_
    exact (leavesFunctions_lift _).happens_bind fun text' => happens_pure rfl rfl
  | equalForeign id value =>
    exact (leavesFunctions_lookup id).happens_bind (fun f => happens_pure rfl rfl) s

/-! ## Numbers -/

/-- The functions are numbered from one on, and the next number follows theirs. -/
structure WellNumbered (s : Session) : Prop where
  ids : s.functions.map NumberedFormula.id = List.range' 1 s.functions.length
  nextId_eq : s.nextId = s.functions.length + 1

theorem WellNumbered.of_happens {result : Except Error Answer × Session} (hs : s.WellNumbered)
    (h : Happens step s result) : result.2.WellNumbered := by
  cases h with
  | made hstep f m =>
    constructor
    · simp [hs.ids, hs.nextId_eq, List.range'_1_concat, Nat.add_comm]
    · simp [hs.nextId_eq]
  | answered hstep hnumber m => exact ⟨hs.ids, hs.nextId_eq⟩
  | failed err m => exact ⟨hs.ids, hs.nextId_eq⟩

/-- **The next number is always one more than there are functions.** -/
theorem wellNumbered_runAll (hs : s.WellNumbered) (steps : List Step) :
    (runAll settings steps s).2.WellNumbered := by
  induction steps generalizing s with
  | nil => exact hs
  | cons step steps ih =>
    rw [runAll_cons]
    exact ih (hs.of_happens (happens_run settings step s))

theorem WellNumbered.find?_nextId (hs : s.WellNumbered) : s.find? s.nextId = none := by
  rw [find?, List.find?_eq_none]
  intro f hf
  have hid : f.id ∈ List.range' 1 s.functions.length := hs.ids ▸ List.mem_map_of_mem hf
  rw [List.mem_range'_1] at hid
  have hnext := hs.nextId_eq
  simp only [decide_eq_true_eq]
  omega

/-- The function that a step makes is the one with its number. -/
theorem WellNumbered.find?_made (hs : s.WellNumbered) (f : Formula) (m : Memo) :
    find? ⟨s.functions ++ [⟨s.nextId, f⟩], s.nextId + 1, m⟩ s.nextId = some ⟨s.nextId, f⟩ := by
  have hnone : s.functions.find? (fun f => f.id = (s.nextId : ℤ)) = none := hs.find?_nextId
  rw [find?, List.find?_append, hnone]
  simp

/-! ## Functions only become more -/

theorem functions_prefix_run (settings : Settings) (step : Step) (s : Session) :
    s.functions <+: (run settings step s).2.functions := by
  have h := happens_run settings step s
  generalize run settings step s = result at h ⊢
  cases h with
  | made hstep f m => exact List.prefix_append _ _
  | answered hstep hnumber m => exact List.prefix_rfl
  | failed err m => exact List.prefix_rfl

theorem functions_prefix_runAll (settings : Settings) (steps : List Step) (s : Session) :
    s.functions <+: (runAll settings steps s).2.functions := by
  induction steps generalizing s with
  | nil => exact List.prefix_rfl
  | cons step steps ih =>
    rw [runAll_cons]
    exact (functions_prefix_run settings step s).trans (ih _)

theorem find?_of_prefix (h : s.functions <+: s'.functions) (hf : s.find? id = some f) :
    s'.find? id = some f := by
  rw [find?] at hf ⊢
  obtain ⟨fs, h⟩ := h
  rw [← h, List.find?_append, hf, Option.some_or]

/-- **The numbers that were answered** are those of the functions that were made. -/
theorem map_id_runAll (settings : Settings) (steps : List Step) (s : Session) :
    (runAll settings steps s).2.functions.map NumberedFormula.id =
      s.functions.map NumberedFormula.id ++ numbers (runAll settings steps s).1 := by
  induction steps generalizing s with
  | nil => exact (List.append_nil _).symm
  | cons step steps ih =>
    rw [runAll_cons]
    have h := happens_run settings step s
    generalize run settings step s = result at h ⊢
    rw [ih result.2]
    cases h with
    | made hstep f m =>
      rw [List.map_append, List.append_assoc]
      rfl
    | answered hstep hnumber m => rw [numbers_of_number?_eq_none hnumber]
    | failed err m => rfl

/-- A function that was made is still there, with the text that was answered. -/
theorem find?_of_made {text : Except Error String} (hs : s.WellNumbered)
    (h : Except.ok (Answer.made n text) ∈ (runAll settings steps s).1) :
    ∃ f, (runAll settings steps s).2.find? n = some f ∧ text = f.text := by
  induction steps generalizing s with
  | nil => cases h
  | cons step steps ih =>
    rw [runAll_cons] at h ⊢
    rcases List.mem_cons.mp h with hfirst | hlater
    · have hstep := happens_run settings step s
      have hprefix := functions_prefix_runAll settings steps (run settings step s).2
      generalize run settings step s = result at hfirst hstep hprefix ⊢
      cases hstep with
      | made hstep f m =>
        cases hfirst
        exact ⟨_, find?_of_prefix hprefix (hs.find?_made f m), rfl⟩
      | answered hstep hnumber m =>
        cases hfirst
        cases hnumber
      | failed err m => cases hfirst
    · exact ih (hs.of_happens (happens_run settings step s)) hlater

/-! ## Questions -/

/-- A question is answered from the function with the number. -/
theorem run_of_asksAbout (hq : q.AsksAbout id) (h : s'.find? id = s.find? id) :
    (run settings q s').1 = (run settings q s).1 := by
  cases hq with
  | evaluate x =>
    rw [run, bind_apply, bind_apply, lookup, lookup, h]
    cases s.find? id with
    | none => rfl
    | some f =>
      dsimp only
      rw [bind_apply, bind_apply, lift_apply, lift_apply]
      cases f.formula.evaluate settings.epsilon x <;> rfl
  | «show» =>
    rw [run, bind_apply, bind_apply, lookup, lookup, h]
    cases s.find? id with
    | none => rfl
    | some f =>
      dsimp only
      rw [bind_apply, bind_apply, lift_apply, lift_apply]
      rw [NumberedFormula.text]
      cases f.formula.text <;> rfl
  | sample first last count =>
    rw [run, bind_apply, bind_apply, lookup, lookup, h]
    cases s.find? id with
    | none => rfl
    | some f =>
      dsimp only
      rw [bind_apply, bind_apply, lift_apply, lift_apply]
      cases SymCalc.sample settings.epsilon f.formula first last count <;> rfl

/-- A function is shown with its text, if that can be written. -/
theorem run_show (hf : s.find? id = some f) :
    ∃ plain, (run settings (.show id) s).1 = f.text.map (Answer.shown plain) := by
  rw [run, bind_apply, lookup, hf]
  dsimp only
  rw [bind_apply, lift_apply, NumberedFormula.text]
  cases f.formula.text with
  | ok plain => exact ⟨plain, rfl⟩
  | error e => exact ⟨"", rfl⟩

/-! ## What is remembered -/

/-- The answer depends only on the functions of the session and the next number, and what is
remembered stays faithful. -/
def DependsOnFunctions {α : Type} (ε : Float) (x : Action α) : Prop :=
  ∀ s, s.memo.Faithful ε → (x s).1 = (x { s with memo := .empty }).1 ∧ (x s).2.memo.Faithful ε

section

variable {α β : Type} {ε : Float}

theorem dependsOnFunctions_lift (x : Except Error α) :
    DependsOnFunctions ε (liftM x : Action α) :=
  fun _ hm => ⟨rfl, hm⟩

theorem dependsOnFunctions_pure (a : α) : DependsOnFunctions ε (pure a : Action α) :=
  fun _ hm => ⟨rfl, hm⟩

theorem dependsOnFunctions_define (f : Formula) : DependsOnFunctions ε (define f) :=
  fun _ hm => ⟨rfl, hm⟩

theorem dependsOnFunctions_lookup (id : ℤ) : DependsOnFunctions ε (lookup id) := by
  intro s hm
  have hfind : find? { s with memo := .empty } id = s.find? id := rfl
  rw [lookup, lookup, hfind]
  cases s.find? id with
  | none => exact ⟨rfl, hm⟩
  | some f => exact ⟨rfl, hm⟩

theorem ignoresMemo_simplified (f : Formula) : IgnoresMemo ε (f.simplified ε) := by
  cases f with
  | expr e => exact ((computes_simplifyRemembering e).bind fun e' => computes_pure _).ignoresMemo
  | polynomial p => exact (computes_pure _).ignoresMemo

theorem dependsOnFunctions_tidy (f : Formula) : DependsOnFunctions ε (tidy ε f) :=
  fun s hm => ignoresMemo_simplified f s.memo hm

theorem DependsOnFunctions.bind {x : Action α} {g : α → Action β} (hx : DependsOnFunctions ε x)
    (hleaves : LeavesFunctions x) (hg : ∀ a, DependsOnFunctions ε (g a)) :
    DependsOnFunctions ε (x >>= g) := by
  intro s hm
  obtain ⟨hresult, hm₁⟩ := hx s hm
  obtain ⟨-, hm₂⟩ := hx { s with memo := .empty } (Memo.faithful_empty ε)
  obtain ⟨m₁, h₁⟩ := hleaves s
  obtain ⟨m₂, h₂⟩ := hleaves { s with memo := .empty }
  rw [bind_apply, bind_apply]
  rcases hs₁ : x s with ⟨r₁, s₁⟩
  rcases hs₂ : x { s with memo := .empty } with ⟨r₂, s₂⟩
  rw [hs₁] at hresult hm₁ h₁
  rw [hs₂] at hresult hm₂ h₂
  obtain rfl : r₁ = r₂ := hresult
  obtain rfl : s₁ = _ := h₁
  obtain rfl : s₂ = _ := h₂
  cases r₁ with
  | error err => exact ⟨rfl, hm₁⟩
  | ok a =>
    obtain ⟨hrest, hm'⟩ := hg a _ hm₁
    exact ⟨hrest.trans (hg a _ hm₂).1.symm, hm'⟩

/-- A step that begins with looking up a function. -/
theorem dependsOnFunctions_lookup_bind {g : NumberedFormula → Action β}
    (hg : ∀ f, DependsOnFunctions ε (g f)) : DependsOnFunctions ε (lookup id >>= g) :=
  (dependsOnFunctions_lookup id).bind (leavesFunctions_lookup id) hg

theorem dependsOnFunctions_lift_bind {x : Except Error α} {g : α → Action β}
    (hg : ∀ a, DependsOnFunctions ε (g a)) : DependsOnFunctions ε (liftM x >>= g) :=
  (dependsOnFunctions_lift x).bind (leavesFunctions_lift x) hg

theorem dependsOnFunctions_tidy_bind {f : Formula} {g : Formula → Action β}
    (hg : ∀ a, DependsOnFunctions ε (g a)) : DependsOnFunctions ε (tidy ε f >>= g) :=
  (dependsOnFunctions_tidy f).bind (leavesFunctions_tidy ε f) hg

end

/-- **What is remembered affects no answer.** -/
theorem dependsOnFunctions_run (settings : Settings) (step : Step) :
    DependsOnFunctions settings.epsilon (run settings step) := by
  cases step with
  | make source => exact dependsOnFunctions_lift_bind dependsOnFunctions_define
  | derivative id =>
    refine dependsOnFunctions_lookup_bind fun f => ?_
    refine dependsOnFunctions_lift_bind fun d => ?_
    exact dependsOnFunctions_tidy_bind dependsOnFunctions_define
  | simplified id =>
    refine dependsOnFunctions_lookup_bind fun f => ?_
    exact dependsOnFunctions_tidy_bind dependsOnFunctions_define
  | evaluate id x =>
    refine dependsOnFunctions_lookup_bind fun f => ?_
    exact dependsOnFunctions_lift_bind fun y => dependsOnFunctions_pure _
  | «show» id =>
    refine dependsOnFunctions_lookup_bind fun f => ?_
    refine dependsOnFunctions_lift_bind fun plain => ?_
    exact dependsOnFunctions_lift_bind fun text => dependsOnFunctions_pure _
  | sample id first last count =>
    refine dependsOnFunctions_lookup_bind fun f => ?_
    exact dependsOnFunctions_lift_bind fun ps => dependsOnFunctions_pure _
  | equal id other =>
    refine dependsOnFunctions_lookup_bind fun f => ?_
    refine dependsOnFunctions_lookup_bind fun g => ?_
    refine dependsOnFunctions_lift_bind fun text => ?_
    exact dependsOnFunctions_lift_bind fun text' => dependsOnFunctions_pure _
  | equalForeign id value =>
    exact dependsOnFunctions_lookup_bind fun f => dependsOnFunctions_pure _

theorem faithful_runAll (hm : s.memo.Faithful settings.epsilon) (steps : List Step) :
    (runAll settings steps s).2.memo.Faithful settings.epsilon := by
  induction steps generalizing s with
  | nil => exact hm
  | cons step steps ih =>
    rw [runAll_cons]
    exact ih (dependsOnFunctions_run settings step s hm).2

/-! ## Whole sessions -/

/-- A session in which no function was made; expressions may have been simplified before. -/
def fresh (settings : Settings) (es : List Expr) : Session :=
  { empty with memo := .after settings.epsilon es }

/-- The answers to the steps of a session. -/
def answers (settings : Settings) (es : List Expr) (steps : List Step) :
    List (Except Error Answer) :=
  (runAll settings steps (fresh settings es)).1

/-- The session after these steps. -/
def reached (settings : Settings) (es : List Expr) (steps : List Step) : Session :=
  (runAll settings steps (fresh settings es)).2

variable {es : List Expr}

theorem reached_append (later : List Step) :
    reached settings es (steps ++ later) = (runAll settings later (reached settings es steps)).2 :=
  runAll_append settings steps later (fresh settings es)

theorem wellNumbered_fresh (settings : Settings) (es : List Expr) :
    (fresh settings es).WellNumbered :=
  ⟨rfl, rfl⟩

theorem wellNumbered_reached (settings : Settings) (es : List Expr) (steps : List Step) :
    (reached settings es steps).WellNumbered :=
  wellNumbered_runAll (wellNumbered_fresh settings es) steps

theorem map_id_reached (settings : Settings) (es : List Expr) (steps : List Step) :
    (reached settings es steps).functions.map NumberedFormula.id =
      numbers (answers settings es steps) :=
  map_id_runAll settings steps (fresh settings es)

theorem numbers_answers (settings : Settings) (es : List Expr) (steps : List Step) :
    numbers (answers settings es steps) =
      List.range' 1 (reached settings es steps).functions.length := by
  rw [← map_id_reached, (wellNumbered_reached settings es steps).ids]

/-- A function is found again later. -/
theorem find?_reached_append (later : List Step)
    (hf : (reached settings es steps).find? id = some f) :
    (reached settings es (steps ++ later)).find? id = some f := by
  rw [reached_append]
  exact find?_of_prefix (functions_prefix_runAll settings later _) hf

/-- Every number that was given belongs to a function. -/
theorem exists_find?_of_mem_numbers (hn : n ∈ numbers (answers settings es steps)) :
    ∃ f, (reached settings es steps).find? n = some f := by
  rw [← map_id_reached] at hn
  obtain ⟨f, hf, hid⟩ := List.mem_map.mp hn
  exact Option.isSome_iff_exists.mp (List.find?_isSome.mpr ⟨f, hf, by simp [hid]⟩)

/-- **Functions keep their numbers, texts, values and samples.** After any steps of a session the
functions that were made have the numbers from one on, in order, and the next number is one more
than there are functions; a further step makes the next one, or none if it fails or does not ask for
one, and then no number is used up. Whatever steps come later, every question about a function has
the same answer as now, and the function still shows the text with which it was made. No answer
depends on what was simplified before. -/
theorem session_identity (settings : Settings) (es : List Expr) (steps later : List Step) :
    numbers (answers settings es steps) =
      List.range' 1 (reached settings es steps).functions.length ∧
    (reached settings es steps).WellNumbered ∧
    (∀ step, Happens step (reached settings es steps)
      (run settings step (reached settings es steps))) ∧
    (∀ n ∈ numbers (answers settings es steps), ∀ q : Step, q.AsksAbout n →
      (run settings q (reached settings es (steps ++ later))).1 =
        (run settings q (reached settings es steps)).1) ∧
    (∀ (n : ℕ) (text : Except Error String), .ok (.made n text) ∈ answers settings es steps →
      ∃ plain, (run settings (.show n) (reached settings es (steps ++ later))).1 =
        text.map (Answer.shown plain)) ∧
    ∀ step, (run settings step (reached settings es steps)).1 =
      (run settings step { reached settings es steps with memo := .empty }).1 := by
  refine ⟨numbers_answers settings es steps, wellNumbered_reached settings es steps,
    fun step => happens_run settings step _, ?_, ?_, ?_⟩
  · intro n hn q hq
    obtain ⟨f, hf⟩ := exists_find?_of_mem_numbers hn
    exact run_of_asksAbout hq ((find?_reached_append later hf).trans hf.symm)
  · intro n text hmade
    obtain ⟨f, hf, rfl⟩ := find?_of_made (wellNumbered_fresh settings es) hmade
    exact run_show (find?_reached_append later hf)
  · intro step
    have hfresh : (fresh settings es).memo.Faithful settings.epsilon :=
      Memo.faithful_after settings.epsilon es
    exact (dependsOnFunctions_run settings step _ (faithful_runAll hfresh steps)).1

/-- Two texts that can be read, one that cannot, and derivatives of a function that exists and of
one that does not. -/
theorem session_identity_failures :
    numbers (answers .standard [] [.make (.text "x*x"), .make (.text "x*"), .derivative 1,
      .derivative 7, .make (.text "2^x")]) = [1, 2, 3] ∧
    ∀ q : Step, q.AsksAbout 1 →
      (run .standard q (reached .standard [] ([.make (.text "x*x"), .make (.text "x*"),
        .derivative 1, .derivative 7, .make (.text "2^x")] ++ [.simplified 2]))).1 =
      (run .standard q (reached .standard [] [.make (.text "x*x"), .make (.text "x*"),
        .derivative 1, .derivative 7, .make (.text "2^x")])).1 := by
  have hnumbers : numbers (answers .standard [] [.make (.text "x*x"), .make (.text "x*"),
      .derivative 1, .derivative 7, .make (.text "2^x")]) = [1, 2, 3] := by decide +kernel
  refine ⟨hnumbers, fun q hq => ?_⟩
  refine (session_identity .standard [] _ [.simplified 2]).2.2.2.1 1 ?_ q hq
  rw [hnumbers]
  decide

end SymCalc.Session
