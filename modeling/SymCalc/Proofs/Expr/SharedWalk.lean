import SymCalc.Proofs.Expr.Fold

/-!
# The walk is a fold

**Theorem (`walk_eq_fold`).** Walk from any node of a finite graph without cycles, with visits that
may fail. The walk ends, after no more rounds than there are nodes and operands, and two. It has the
result of the fold over what the node unfolds into, or the failure that the fold meets first. Each
node is visited at most once, after all its operands, and with exactly their results, in order.

The fold visits a shared node once for each place where it occurs, and the walk looks it up the next
time; so the stack of results does not tell by itself what the walk computes. The invariant
(`Invariant`) says of the state between two rounds:

* *pending tasks*: every result belongs to a node, and if the tasks are carried out on these nodes
  alone, without looking at results, the root is left (`Pending`),
* *order*: the tasks before a node is left are about nodes below it, so it is not entered again
  meanwhile, and there is no result for it yet,
* *record*: the table holds what the visits gave, and the visits are as the theorem says (`IsRecord`).

A record determines the results: each visit gives the fold of its node, by induction along the
operands (`IsRecord.fold_eq_visit`). If a visit fails, everything to the left of it has succeeded,
and then the pending tasks carry the failure up to the root (`Pending.fold_eq_error`).

The stack grows when a node is entered. What becomes less is the number of tasks together with the
nodes that were not entered and their operands (`roundsLeft`), since no node is entered twice.

Values, derivatives, texts, descriptions and simplified forms are folds, and so walks compute them
(`ComputesFunctions`).
-/

namespace SymCalc

section

variable {α β ε : Type} {f : α → Except ε β}

theorem mapM_eq_ok {as : List α} {bs : List β} (h : List.Forall₂ (fun a b => f a = .ok b) as bs) :
    as.mapM f = .ok bs := by
  induction h with
  | nil => rfl
  | cons hab _ ih =>
    rw [List.mapM_cons, hab, ih]
    rfl

theorem mapM_eq_error {before after : List α} {a : α} {e : ε}
    (hbefore : ∀ b ∈ before, ∃ r, f b = .ok r) (ha : f a = .error e) :
    (before ++ a :: after).mapM f = .error e := by
  induction before with
  | nil =>
    rw [List.nil_append, List.mapM_cons, ha]
    rfl
  | cons b before ih =>
    obtain ⟨⟨r, hb⟩, hbefore⟩ := List.forall_mem_cons.mp hbefore
    rw [List.cons_append, List.mapM_cons, hb, ih hbefore]
    rfl

theorem exists_append_of_forall₂ {R : α → β → Prop} {as as' : List α} {bs : List β}
    (h : List.Forall₂ R (as ++ as') bs) :
    ∃ first rest, bs = first ++ rest ∧ List.Forall₂ R as first ∧ List.Forall₂ R as' rest := by
  have hfirst := List.forall₂_take as.length h
  have hrest := List.forall₂_drop as.length h
  rw [List.take_left] at hfirst
  rw [List.drop_left] at hrest
  exact ⟨_, _, (List.take_append_drop as.length bs).symm, hfirst, hrest⟩

theorem exists_of_forall₂ {R : α → β → Prop} {as : List α} {bs : List β}
    (h : List.Forall₂ R as bs) : ∀ a ∈ as, ∃ b, R a b := by
  induction h with
  | nil => exact nofun
  | cons hab _ ih => exact List.forall_mem_cons.mpr ⟨⟨_, hab⟩, ih⟩

end

/-- The node that a task is about. -/
def Task.node {ι : Type} : Task ι → ι
  | .enter i | .leave i => i

namespace ExprGraph

variable {ι β ε : Type} {g : ExprGraph ι} {visit : ι → List β → Except ε β} {i root : ι}
  {s s' : WalkState ι β} {tasks : List (Task ι)} {before owners : List ι}
  {visits : List (ι × List β)} {b : β} {e : ε} {first taken : List β}

/-! ## Records -/

/-- What the visits of a walk are like: each node is visited at most once, after all its operands,
and with the results that their visits gave, in the order of the operands. -/
structure IsRecord (g : ExprGraph ι) (visit : ι → List β → Except ε β)
    (visits : List (ι × List β)) : Prop where
  once : (visits.map Prod.fst).Nodup
  afterOperands {before after : List (ι × List β)} {i : ι} {taken : List β}
    (h : visits = before ++ (i, taken) :: after) :
    List.Forall₂ (fun c b => ∃ t, (c, t) ∈ before ∧ visit c t = .ok b) (g.operands i) taken

theorem isRecord_nil : g.IsRecord visit [] where
  once := List.nodup_nil
  afterOperands h := by simp at h

theorem IsRecord.snoc (h : g.IsRecord visit visits) (hnew : ∀ t, (i, t) ∉ visits)
    (htaken : List.Forall₂ (fun c b => ∃ t, (c, t) ∈ visits ∧ visit c t = .ok b)
      (g.operands i) taken) :
    g.IsRecord visit (visits ++ [(i, taken)]) where
  once := by
    rw [List.map_append, List.map_singleton, ← List.concat_eq_append, List.nodup_concat]
    refine ⟨?_, h.once⟩
    intro hi
    obtain ⟨⟨j, t⟩, hv, rfl⟩ := List.mem_map.mp hi
    exact hnew t hv
  afterOperands {before after j t} heq := by
    rcases List.eq_nil_or_concat after with rfl | ⟨after, v, rfl⟩
    · obtain ⟨rfl, hlast⟩ := List.append_inj' heq rfl
      cases hlast
      exact htaken
    · rw [List.concat_eq_append, ← List.cons_append, ← List.append_assoc] at heq
      exact h.afterOperands (List.append_inj' heq rfl).1

/-- **Each visit gives the fold** of its node. -/
theorem IsRecord.fold_eq_visit [Finite ι] (h : g.IsRecord visit visits)
    (hi : (i, taken) ∈ visits) : g.fold visit i = visit i taken := by
  induction i using g.wellFounded_isOperand.induction generalizing taken with
  | _ i ih =>
    obtain ⟨before, after, rfl⟩ := List.append_of_mem hi
    have hoperands : List.Forall₂ (fun c b => g.fold visit c = .ok b) (g.operands i) taken := by
      -- The operands were visited before, so what is known of their visits applies.
      have hbefore := h.afterOperands rfl
      rw [List.forall₂_iff_zip] at hbefore ⊢
      refine ⟨hbefore.1, fun {c b} hcb => ?_⟩
      obtain ⟨t, ht, hvisit⟩ := hbefore.2 hcb
      rw [ih c (List.of_mem_zip hcb).1 (List.mem_append_left _ ht), hvisit]
    rw [fold_eq, mapM_eq_ok hoperands]
    rfl

/-- The visits of a walk from the root that ends with this result: it is the result of a visit, and
of the visit of the root unless it is a failure. -/
structure Explains (g : ExprGraph ι) (visit : ι → List β → Except ε β) (root : ι)
    (visits : List (ι × List β)) (result : Except ε β) : Prop where
  isRecord : g.IsRecord visit visits
  ofVisit : ∃ i taken, (i, taken) ∈ visits ∧ visit i taken = result ∧ (result.isOk → i = root)

/-! ## Pending tasks -/

/-- Carrying out the tasks on results that belong to the given nodes leaves one result, which
belongs to the root. -/
inductive Pending (g : ExprGraph ι) (root : ι) : List (Task ι) → List ι → Prop
  | done : Pending g root [] [root]
  | enter {i : ι} {tasks : List (Task ι)} {owners : List ι}
      (h : Pending g root tasks (owners ++ [i])) : Pending g root (.enter i :: tasks) owners
  | leave {i : ι} {tasks : List (Task ι)} {owners : List ι}
      (h : Pending g root tasks (owners ++ [i])) :
      Pending g root (.leave i :: tasks) (owners ++ g.operands i)

theorem Pending.enters {is : List ι} (h : g.Pending root tasks (owners ++ is)) :
    g.Pending root (is.map .enter ++ tasks) owners := by
  induction is generalizing owners with
  | nil => rwa [List.append_nil] at h
  | cons i is ih =>
    rw [← List.singleton_append, ← List.append_assoc] at h
    exact .enter (ih h)

/-- **The first failure is that of the fold**: a node whose fold fails, to the right of nodes whose
folds do not, makes the fold of the root fail. -/
theorem Pending.fold_eq_error [Finite ι] (h : g.Pending root tasks owners) {after : List ι}
    (howners : owners = before ++ i :: after)
    (hbefore : ∀ c ∈ before, ∃ b, g.fold visit c = .ok b) (hi : g.fold visit i = .error e) :
    g.fold visit root = .error e := by
  induction h generalizing i before after with
  | done =>
    obtain ⟨-, hi'⟩ | ⟨-, hi'⟩ := List.singleton_eq_append_iff.mp howners
    · cases hi'
      exact hi
    · cases hi'
  | @enter j _ owners _ ih =>
    have howners' : owners ++ [j] = before ++ i :: (after ++ [j]) := by
      rw [howners, List.append_assoc, List.cons_append]
    exact ih howners' hbefore hi
  | @leave j _ owners _ ih =>
    -- Either the node is an operand of the one that is left, or its result lies further below.
    have hoperand : ∀ between, g.operands j = between ++ i :: after →
        (∀ c ∈ owners ++ between, ∃ b, g.fold visit c = .ok b) → g.fold visit root = .error e := by
      intro between hbetween hok
      have hj : g.fold visit j = .error e := by
        rw [fold_eq, hbetween,
          mapM_eq_error (fun c hc => hok c (List.mem_append_right owners hc)) hi]
        rfl
      exact ih rfl (fun c hc => hok c (List.mem_append_left between hc)) hj
    rcases List.append_eq_append_iff.mp howners with ⟨between, rfl, hbetween⟩ | ⟨rest, rfl, hrest⟩
    · exact hoperand between hbetween hbefore
    · cases rest with
      | nil =>
        rw [List.append_nil] at hoperand
        exact hoperand [] hrest.symm (by rwa [List.append_nil])
      | cons c rest =>
        obtain ⟨rfl, rfl⟩ := List.cons.inj hrest
        have howners' : before ++ i :: rest ++ [j] = before ++ i :: (rest ++ [j]) := by
          rw [List.append_assoc, List.cons_append]
        exact ih howners' hbefore hi

/-! ## The invariant -/

/-- What holds between two rounds of a walk. -/
structure Invariant (g : ExprGraph ι) (visit : ι → List β → Except ε β) (root : ι)
    (s : WalkState ι β) : Prop where
  pending : ∃ owners, g.Pending root s.tasks owners ∧
    List.Forall₂ (fun c b => s.done c = some b) owners s.results
  below : s.tasks.Pairwise fun t u => ∀ i, u = .leave i → g.Below t.node i
  unfinished (i : ι) (h : .leave i ∈ s.tasks) : s.done i = none
  recorded (i : ι) (b : β) (h : s.done i = some b) : ∃ t, (i, t) ∈ s.visits ∧ visit i t = .ok b
  finished (i : ι) (t : List β) (h : (i, t) ∈ s.visits) : ∃ b, s.done i = some b
  isRecord : g.IsRecord visit s.visits

theorem invariant_start (g : ExprGraph ι) (visit : ι → List β → Except ε β) (root : ι) :
    g.Invariant visit root (.start root) where
  pending := ⟨[], .enter .done, .nil⟩
  below := List.pairwise_singleton _ _
  unfinished i h := by simp [WalkState.start] at h
  recorded i b h := by cases h
  finished i t h := by cases h
  isRecord := isRecord_nil

theorem Invariant.fold_of_done [Finite ι] (h : g.Invariant visit root s)
    (hi : s.done i = some b) : g.fold visit i = .ok b := by
  obtain ⟨t, ht, hvisit⟩ := h.recorded i b hi
  rw [h.isRecord.fold_eq_visit ht, hvisit]

/-- While there is a task for a node, it is not left from further down the stack. -/
theorem Invariant.leave_not_mem (h : g.Invariant visit root s) {t : Task ι}
    (htasks : s.tasks = t :: tasks) : .leave t.node ∉ tasks := by
  intro hmem
  have hbelow := h.below
  rw [htasks] at hbelow
  exact g.acyclic _ ((List.pairwise_cons.mp hbelow).1 _ hmem _ rfl)

/-! ### A node is entered -/

/-- The result is there already. -/
theorem Invariant.enter_done (h : g.Invariant visit root s) (htasks : s.tasks = .enter i :: tasks)
    (hi : s.done i = some b) :
    g.Invariant visit root { s with tasks, results := s.results ++ [b] } where
  pending := by
    obtain ⟨owners, hpending, howners⟩ := h.pending
    rw [htasks] at hpending
    cases hpending with
    | enter hpending => exact ⟨_, hpending, List.rel_append howners (.cons hi .nil)⟩
  below := (List.pairwise_cons.mp (htasks ▸ h.below)).2
  unfinished j hj := h.unfinished j (htasks ▸ List.mem_cons_of_mem _ hj)
  recorded := h.recorded
  finished := h.finished
  isRecord := h.isRecord

/-- The node gives way to its operands. -/
theorem Invariant.enter_new (h : g.Invariant visit root s) (htasks : s.tasks = .enter i :: tasks)
    (hi : s.done i = none) :
    g.Invariant visit root { s with tasks := (g.operands i).map .enter ++ .leave i :: tasks } where
  pending := by
    obtain ⟨owners, hpending, howners⟩ := h.pending
    rw [htasks] at hpending
    cases hpending with
    | enter hpending => exact ⟨owners, (Pending.leave hpending).enters, howners⟩
  below := by
    obtain ⟨hbelow, htail⟩ := List.pairwise_cons.mp (htasks ▸ h.below)
    refine List.pairwise_append.mpr ⟨?_, List.pairwise_cons.mpr ⟨hbelow, htail⟩, ?_⟩
    · refine List.pairwise_map.mpr (List.pairwise_of_forall ?_)
      intro c d j hj
      cases hj
    -- An operand lies below its node, and so below whatever the node lies below.
    · rintro t ht u hu j rfl
      obtain ⟨c, hc, rfl⟩ := List.mem_map.mp ht
      have hci : g.Below c i := .single hc
      rcases List.mem_cons.mp hu with hj | hj
      · cases hj
        exact hci
      · exact hci.trans (hbelow _ hj j rfl)
  unfinished j hj := by
    rcases List.mem_append.mp hj with hj | hj
    · obtain ⟨c, -, hc⟩ := List.mem_map.mp hj
      cases hc
    · rcases List.mem_cons.mp hj with hj | hj
      · cases hj
        exact hi
      · exact h.unfinished j (htasks ▸ List.mem_cons_of_mem _ hj)
  recorded := h.recorded
  finished := h.finished
  isRecord := h.isRecord

/-! ### A node is left -/

/-- The latest results are those of the operands. -/
theorem Invariant.exists_taken (h : g.Invariant visit root s)
    (htasks : s.tasks = .leave i :: tasks) :
    ∃ before first taken, g.Pending root tasks (before ++ [i]) ∧ s.results = first ++ taken ∧
      List.Forall₂ (fun c b => s.done c = some b) before first ∧
      List.Forall₂ (fun c b => s.done c = some b) (g.operands i) taken := by
  obtain ⟨owners, hpending, howners⟩ := h.pending
  rw [htasks] at hpending
  cases hpending with
  | leave hpending =>
    obtain ⟨first, taken, hresults, hfirst, htaken⟩ := exists_append_of_forall₂ howners
    exact ⟨_, first, taken, hpending, hresults, hfirst, htaken⟩

theorem Invariant.done_eq_none (h : g.Invariant visit root s)
    (htasks : s.tasks = .leave i :: tasks) : s.done i = none :=
  h.unfinished i (htasks ▸ List.mem_cons_self)

theorem Invariant.isRecord_leave (h : g.Invariant visit root s)
    (htasks : s.tasks = .leave i :: tasks)
    (htaken : List.Forall₂ (fun c b => s.done c = some b) (g.operands i) taken) :
    g.IsRecord visit (s.visits ++ [(i, taken)]) := by
  have hi := h.done_eq_none htasks
  refine h.isRecord.snoc ?_ (htaken.imp fun c b hc => h.recorded c b hc)
  intro t ht
  obtain ⟨b, hb⟩ := h.finished i t ht
  rw [hi] at hb
  cases hb

/-- If the visit fails, so does the fold. -/
theorem Invariant.leave_error [Finite ι] (h : g.Invariant visit root s)
    (htasks : s.tasks = .leave i :: tasks) (hpending : g.Pending root tasks (before ++ [i]))
    (hfirst : List.Forall₂ (fun c b => s.done c = some b) before first)
    (htaken : List.Forall₂ (fun c b => s.done c = some b) (g.operands i) taken)
    (hvisit : visit i taken = .error e) : g.fold visit root = .error e := by
  have hi : g.fold visit i = .error e := by
    have hlast : (i, taken) ∈ s.visits ++ [(i, taken)] := by simp
    rw [(h.isRecord_leave htasks htaken).fold_eq_visit hlast, hvisit]
  refine hpending.fold_eq_error rfl (fun c hc => ?_) hi
  obtain ⟨r, hr⟩ := exists_of_forall₂ hfirst c hc
  exact ⟨r, h.fold_of_done hr⟩

variable [DecidableEq ι]

theorem visited_done_self : (s.visited i tasks first taken b).done i = some b :=
  if_pos rfl

theorem visited_done_of_ne {j : ι} (h : j ≠ i) :
    (s.visited i tasks first taken b).done j = s.done j :=
  if_neg h

/-- If the visit returns, its result takes the place of those of the operands. -/
theorem Invariant.leave_ok (h : g.Invariant visit root s) (htasks : s.tasks = .leave i :: tasks)
    (hpending : g.Pending root tasks (before ++ [i]))
    (hfirst : List.Forall₂ (fun c b => s.done c = some b) before first)
    (htaken : List.Forall₂ (fun c b => s.done c = some b) (g.operands i) taken)
    (hvisit : visit i taken = .ok b) :
    g.Invariant visit root (s.visited i tasks first taken b) where
  pending := by
    have hi := h.done_eq_none htasks
    refine ⟨_, hpending, List.rel_append (hfirst.imp ?_) (.cons visited_done_self .nil)⟩
    intro c r hc
    rwa [visited_done_of_ne (by rintro rfl; rw [hi] at hc; cases hc)]
  below := (List.pairwise_cons.mp (htasks ▸ h.below)).2
  unfinished j hj := by
    have hne : j ≠ i := by
      rintro rfl
      exact h.leave_not_mem htasks hj
    rw [visited_done_of_ne hne]
    exact h.unfinished j (htasks ▸ List.mem_cons_of_mem _ hj)
  recorded j r hj := by
    by_cases hji : j = i
    · subst hji
      cases visited_done_self.symm.trans hj
      exact ⟨taken, List.mem_append_right _ (List.mem_singleton_self _), hvisit⟩
    · rw [visited_done_of_ne hji] at hj
      obtain ⟨t, ht, hr⟩ := h.recorded j r hj
      exact ⟨t, List.mem_append_left _ ht, hr⟩
  finished j t hj := by
    by_cases hji : j = i
    · exact ⟨b, hji ▸ visited_done_self⟩
    · rw [visited_done_of_ne hji]
      rcases List.mem_append.mp hj with hj | hj
      · exact h.finished j t hj
      · cases List.mem_singleton.mp hj
        exact absurd rfl hji
  isRecord := h.isRecord_leave htasks htaken

theorem leave_eq (hresults : s.results = first ++ taken)
    (hlength : taken.length = (g.operands i).length) :
    g.leave visit s i tasks =
      match visit i taken with
      | .ok b => .next (s.visited i tasks first taken b)
      | .error e => .ended (.error (.raised e)) (s.visits ++ [(i, taken)]) := by
  have hlen : s.results.length = first.length + (g.operands i).length := by
    rw [hresults, List.length_append, hlength]
  have henough : ¬s.results.length < (g.operands i).length := by omega
  have hstart : s.results.length - (g.operands i).length = first.length := by omega
  have hfirst : s.results.take first.length = first := by rw [hresults, List.take_left]
  have htaken : s.results.drop first.length = taken := by rw [hresults, List.drop_left]
  cases hvisit : visit i taken <;>
    simp only [leave, if_neg henough, hstart, hfirst, htaken, hvisit]

/-! ## Rounds -/

variable [Fintype ι]

/-- The nodes that were not entered yet. -/
def fresh (s : WalkState ι β) : Finset ι :=
  {i | s.done i = none ∧ .leave i ∉ s.tasks}

theorem mem_fresh : i ∈ fresh s ↔ s.done i = none ∧ .leave i ∉ s.tasks := by
  simp [fresh]

/-- How many rounds are left at most: one for each task, and for each node that was not entered yet
one to leave it and one for each operand. -/
def roundsLeft (g : ExprGraph ι) (s : WalkState ι β) : ℕ :=
  s.tasks.length + ∑ i ∈ fresh s, (1 + (g.operands i).length)

theorem roundsLeft_lt (hfresh : ∀ i, i ∈ fresh s' ↔ i ∈ fresh s)
    (htasks : s'.tasks.length < s.tasks.length) : g.roundsLeft s' < g.roundsLeft s := by
  rw [roundsLeft, roundsLeft, Finset.ext hfresh]
  omega

theorem roundsLeft_enter_done (htasks : s.tasks = .enter i :: tasks) :
    g.roundsLeft { s with tasks, results := s.results ++ [b] } < g.roundsLeft s := by
  refine roundsLeft_lt (fun j => ?_) ?_
  · simp [mem_fresh, htasks]
  · simp [htasks]

theorem roundsLeft_visited (htasks : s.tasks = .leave i :: tasks) :
    g.roundsLeft (s.visited i tasks first taken b) < g.roundsLeft s := by
  have htail : (s.visited i tasks first taken b).tasks = tasks := rfl
  refine roundsLeft_lt (fun j => ?_) ?_
  · by_cases hji : j = i
    · subst hji
      simp [mem_fresh, visited_done_self, htasks]
    · simp [mem_fresh, visited_done_of_ne hji, htasks, htail, hji]
  · simp [htasks, htail]

theorem Invariant.roundsLeft_enter_new (h : g.Invariant visit root s)
    (htasks : s.tasks = .enter i :: tasks) (hi : s.done i = none) :
    g.roundsLeft { s with tasks := (g.operands i).map .enter ++ .leave i :: tasks } <
      g.roundsLeft s := by
  have hmem : i ∈ fresh s := by
    refine mem_fresh.mpr ⟨hi, ?_⟩
    rw [htasks, List.mem_cons, not_or]
    exact ⟨nofun, h.leave_not_mem htasks⟩
  have hfresh : fresh { s with tasks := (g.operands i).map .enter ++ .leave i :: tasks } =
      (fresh s).erase i := by
    ext j
    simp only [mem_fresh, Finset.mem_erase, htasks, List.mem_append, List.mem_map, List.mem_cons]
    simp [eq_comm, and_left_comm]
  -- The node leaves the sum with one more than what its tasks add to the stack.
  rw [roundsLeft, roundsLeft, hfresh, ← Finset.add_sum_erase _ _ hmem, htasks]
  simp only [List.length_append, List.length_map, List.length_cons]
  omega

/-- What a round leads to: a state nearer to the end, or the end with the fold as the result. -/
inductive Proceeds (g : ExprGraph ι) (visit : ι → List β → Except ε β) (root : ι)
    (s : WalkState ι β) : Round ι β ε → Prop
  | next {s' : WalkState ι β} (h : g.Invariant visit root s')
      (hless : g.roundsLeft s' < g.roundsLeft s) : Proceeds g visit root s (.next s')
  | ended {visits : List (ι × List β)} (h : g.Explains visit root visits (g.fold visit root)) :
      Proceeds g visit root s (.ended ((g.fold visit root).mapError .raised) visits)

theorem Invariant.proceeds_done (h : g.Invariant visit root s) (htasks : s.tasks = []) :
    g.Proceeds visit root s (g.step visit s) := by
  obtain ⟨owners, hpending, howners⟩ := h.pending
  rw [htasks] at hpending
  cases hpending
  obtain ⟨b, bs, hb, -, hresults⟩ := List.forall₂_cons_left_iff.mp howners
  obtain ⟨t, ht, hvisit⟩ := h.recorded root b hb
  have hfold := h.fold_of_done hb
  have hstep : g.step visit s = .ended ((g.fold visit root).mapError .raised) s.visits := by
    rw [step, htasks, hresults, hfold]
    rfl
  rw [hstep]
  exact .ended ⟨h.isRecord, root, t, ht, hvisit.trans hfold.symm, fun _ => rfl⟩

theorem Invariant.proceeds_enter (h : g.Invariant visit root s)
    (htasks : s.tasks = .enter i :: tasks) : g.Proceeds visit root s (g.step visit s) := by
  rw [step, htasks]
  dsimp only
  cases hi : s.done i with
  | some b => exact .next (h.enter_done htasks hi) (roundsLeft_enter_done htasks)
  | none => exact .next (h.enter_new htasks hi) (h.roundsLeft_enter_new htasks hi)

theorem Invariant.proceeds_leave (h : g.Invariant visit root s)
    (htasks : s.tasks = .leave i :: tasks) : g.Proceeds visit root s (g.step visit s) := by
  obtain ⟨before, first, taken, hpending, hresults, hfirst, htaken⟩ := h.exists_taken htasks
  rw [step, htasks]
  dsimp only
  rw [leave_eq hresults htaken.length_eq.symm]
  cases hvisit : visit i taken with
  | ok b =>
    exact .next (h.leave_ok htasks hpending hfirst htaken hvisit) (roundsLeft_visited htasks)
  | error e =>
    have hfold := h.leave_error htasks hpending hfirst htaken hvisit
    have hexplains :
        g.Explains visit root (s.visits ++ [(i, taken)]) (g.fold visit root) := by
      refine ⟨h.isRecord_leave htasks htaken, i, taken, by simp, hvisit.trans hfold.symm, ?_⟩
      rw [hfold]
      exact nofun
    have hended : g.Proceeds visit root s _ := .ended hexplains
    rwa [hfold] at hended

/-- **Each round proceeds** to the next one or to the fold. -/
theorem Invariant.proceeds (h : g.Invariant visit root s) :
    g.Proceeds visit root s (g.step visit s) := by
  match htasks : s.tasks with
  | [] => exact h.proceeds_done htasks
  | .enter i :: tasks => exact h.proceeds_enter htasks
  | .leave i :: tasks => exact h.proceeds_leave htasks

/-! ## Walks -/

/-- A walk takes no more rounds than this and one: one for the root, and for each node one to leave
it and one for each operand. -/
def rounds (g : ExprGraph ι) : ℕ :=
  1 + ∑ i, (1 + (g.operands i).length)

theorem roundsLeft_start (root : ι) : g.roundsLeft (.start (β := β) root) = g.rounds := by
  have hfresh : fresh (.start (β := β) root) = Finset.univ := by
    ext j
    simp [mem_fresh, WalkState.start]
  rw [roundsLeft, hfresh]
  rfl

/-- Walking from the root ends in time, never takes a result where none is left, and has this
result, which its visits explain. -/
def Walks (g : ExprGraph ι) (visit : ι → List β → Except ε β) (root : ι) (result : Except ε β) :
    Prop :=
  ∃ visits, g.Explains visit root visits result ∧ ∀ n, g.rounds < n →
    g.walkWithin visit n (.start root) = some (result.mapError .raised, visits)

theorem Invariant.exists_walkWithin (h : g.Invariant visit root s) :
    ∃ visits, g.Explains visit root visits (g.fold visit root) ∧ ∀ n, g.roundsLeft s < n →
      g.walkWithin visit n s = some ((g.fold visit root).mapError .raised, visits) := by
  induction hk : g.roundsLeft s using Nat.strong_induction_on generalizing s with
  | _ k ih =>
    have hproceeds := h.proceeds
    generalize hstep : g.step visit s = round at hproceeds
    cases hproceeds with
    | next h' hless =>
      obtain ⟨visits, hexplains, hends⟩ := ih _ (hk ▸ hless) h' rfl
      refine ⟨visits, hexplains, fun n hn => ?_⟩
      obtain ⟨m, rfl⟩ := Nat.exists_eq_succ_of_ne_zero (Nat.ne_zero_of_lt hn)
      rw [walkWithin, hstep]
      exact hends m (by omega)
    | ended hexplains =>
      refine ⟨_, hexplains, fun n hn => ?_⟩
      obtain ⟨m, rfl⟩ := Nat.exists_eq_succ_of_ne_zero (Nat.ne_zero_of_lt hn)
      rw [walkWithin, hstep]

theorem walks_fold (g : ExprGraph ι) (visit : ι → List β → Except ε β) (root : ι) :
    g.Walks visit root (g.fold visit root) := by
  obtain ⟨visits, hexplains, hends⟩ := (invariant_start g visit root).exists_walkWithin
  rw [roundsLeft_start] at hends
  exact ⟨visits, hexplains, hends⟩

theorem walks_of_fold_expr {visit : Expr → List β → Except ε β} {result : Except ε β}
    (h : (g.expr root).fold visit = result) : g.Walks (fun i => visit (g.expr i)) root result := by
  rw [← h, ← fold_expr]
  exact walks_fold g _ root

/-- Walking from the root gives everything that is computed from the expression it stands for. -/
structure ComputesFunctions (g : ExprGraph ι) (root : ι) : Prop where
  evaluate (ε x : Float) :
    g.Walks (fun i => (g.expr i).evaluateNode ε x) root ((g.expr root).evaluate ε x)
  derivative : g.Walks (fun i => (g.expr i).derivativeNode) root (g.expr root).derivative
  render :
    g.Walks (ε := Error) (fun i ss => .ok ((g.expr i).renderNode ss)) root
      (.ok (g.expr root).render)
  describe :
    g.Walks (ε := Error) (fun i ss => .ok ((g.expr i).describeNode ss)) root
      (.ok (g.expr root).describe)
  simplify (ε : Float) :
    g.Walks (fun i => (g.expr i).simplifyRebuilt ε) root ((g.expr root).simplify ε)

theorem computesFunctions (g : ExprGraph ι) (root : ι) : g.ComputesFunctions root where
  evaluate ε x := walks_of_fold_expr (Expr.fold_evaluateNode ε x _)
  derivative := walks_of_fold_expr (Expr.fold_derivativeNode _)
  render := walks_of_fold_expr (Expr.fold_renderNode _)
  describe := walks_of_fold_expr (Expr.fold_describeNode _)
  simplify ε := walks_of_fold_expr (Expr.fold_simplifyRebuilt ε _)

/-- **The walk is a fold.** In a finite graph of nodes without cycles, whatever is shared, a walk
from any root ends, and with what the fold over the unfolded root gives: the same result, or the
same failure first. Each node is visited at most once, after all its operands, and with exactly
their results, in order. Visits that look at expressions only fold the expression that the root
stands for, and so walks compute its values, derivative, texts and simplified form. -/
theorem walk_eq_fold (g : ExprGraph ι) (root : ι) :
    (∀ (β ε : Type) (visit : ι → List β → Except ε β),
      g.Walks visit root (g.fold visit root)) ∧
    (∀ (β ε : Type) (visit : Expr → List β → Except ε β),
      g.fold (fun i => visit (g.expr i)) root = (g.expr root).fold visit) ∧
    g.ComputesFunctions root :=
  ⟨fun _ _ visit => walks_fold g visit root, fun _ _ visit => fold_expr g visit root,
    computesFunctions g root⟩

/-- The variable and its product with itself, which has one node as both operands. -/
def square : ExprGraph (Fin 2) :=
  ofOrdered ![.var, .binary .mul 0 0] (by decide)

theorem expr_square : square.expr 1 = .binary .mul .var .var := by
  have hvar : square.expr 0 = .var := by
    rw [expr]
    rfl
  rw [expr]
  show Expr.binary .mul (square.expr 0) (square.expr 0) = _
  rw [hvar]

/-- The square unfolds into three nodes, and a walk visits two. -/
theorem walk_eq_fold_square :
    square.expr 1 = .binary .mul .var .var ∧
      square.Walks (β := ℕ) (ε := Error) (fun _ counts => .ok (counts.sum + 1)) 1 (.ok 3) ∧
      square.walkWithin (ε := Error) (fun _ counts => .ok (counts.sum + 1)) 6 (.start 1) =
        some (.ok 3, [(0, []), (1, [1, 1])]) := by
  obtain ⟨hwalks, hfold, -⟩ := walk_eq_fold square 1
  have hcount : square.fold (β := ℕ) (ε := Error) (fun _ counts => .ok (counts.sum + 1)) 1 =
      .ok 3 := by
    rw [hfold ℕ Error fun _ counts => .ok (counts.sum + 1), expr_square]
    rfl
  exact ⟨expr_square, hcount ▸ hwalks ℕ Error _, rfl⟩

end ExprGraph

end SymCalc
