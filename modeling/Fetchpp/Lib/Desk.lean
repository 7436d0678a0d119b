import Fetchpp.Lib.Machine

/-!
# Service desks

One desk serves a line of customers, the first of the line at a time.  A
failure shuts the desk; a desk that is shut serves nobody, refuses whoever
arrives and may dismiss its line.  A customer is known by the number of its
arrival.
-/

namespace Fetchpp.Lib

universe u

/-- How a customer leaves a desk. -/
inductive Leaving (Failure : Type u) where
  /-- at once, because the desk was shut -/
  | refused
  | served
  | failed (failure : Failure)
  /-- from the line, without having been served -/
  | dismissed
  deriving DecidableEq, Repr

/-- `left` lists the customers in the order in which they leave. -/
@[ext] structure Desk (Failure : Type u) where
  isOpen : Bool := true
  arrived : Nat := 0
  reopened : Nat := 0
  line : List Nat := []
  left : List (Nat × Leaving Failure) := []
  deriving DecidableEq, Repr

namespace Desk

variable {Failure : Type u}

inductive Event (Failure : Type u) where
  | arrive
  | reopen
  | shut
  | serve
  /-- the customer in front fails, and the desk is shut -/
  | fail (failure : Failure)
  /-- the customer in front is dismissed -/
  | dismiss
  /-- the whole line is dismissed -/
  | clear
  deriving DecidableEq, Repr

def leave (how : Leaving Failure) (desk : Desk Failure) :
    Option (Desk Failure) :=
  match desk.line with
  | [] => none
  | front :: rest =>
      some { desk with line := rest, left := desk.left ++ [(front, how)] }

def step (desk : Desk Failure) : Event Failure → Option (Desk Failure)
  | .arrive =>
      if desk.isOpen then
        some { desk with
          arrived := desk.arrived + 1
          line := desk.line ++ [desk.arrived] }
      else
        some { desk with
          arrived := desk.arrived + 1
          left := desk.left ++ [(desk.arrived, .refused)] }
  | .reopen =>
      some { desk with isOpen := true, reopened := desk.reopened + 1 }
  | .shut => some { desk with isOpen := false }
  | .serve => if desk.isOpen then desk.leave .served else none
  | .fail failure =>
      if desk.isOpen then
        { desk with isOpen := false }.leave (.failed failure)
      else none
  | .dismiss => desk.leave .dismissed
  | .clear =>
      if desk.isOpen then none
      else
        some { desk with
          line := []
          left := desk.left ++
            desk.line.map (fun customer => (customer, .dismissed)) }

/-- The desk takes the step, or stays as it is. -/
def Moves (desk after : Desk Failure) : Option (Event Failure) → Prop
  | none => after = desk
  | some event => desk.step event = some after

theorem moves_serve {desk after : Desk Failure} (isOpen : desk.isOpen = true)
    (left : desk.leave .served = some after) :
    desk.Moves after (some .serve) := by
  simpa only [Moves, step, isOpen, if_true] using left

theorem moves_fail {desk after : Desk Failure} {failure : Failure}
    (isOpen : desk.isOpen = true)
    (left : { desk with isOpen := false }.leave (.failed failure) =
      some after) :
    desk.Moves after (some (.fail failure)) := by
  simpa only [Moves, step, isOpen, if_true] using left

theorem moves_clear {desk : Desk Failure} (shut : desk.isOpen = false) :
    desk.Moves { desk with
      line := []
      left := desk.left ++
        desk.line.map (fun customer => (customer, .dismissed)) }
      (some .clear) := by
  simp only [Moves, step, shut, Bool.false_eq_true, if_false]

theorem leave_isOpen {desk after : Desk Failure} {how : Leaving Failure}
    (left : desk.leave how = some after) : after.isOpen = desk.isOpen := by
  unfold leave at left
  split at left
  · cases left
  · cases left
    rfl

theorem Moves.shuts {desk after : Desk Failure}
    {event? : Option (Event Failure)} (moves : desk.Moves after event?)
    (isOpen : desk.isOpen = true) (shut : after.isOpen = false) :
    event? = some .shut ∨ ∃ failure, event? = some (.fail failure) := by
  cases event? with
  | none =>
      rw [moves, isOpen] at shut
      cases shut
  | some event =>
      have stepped : desk.step event = some after := moves
      cases event with
      | shut => exact .inl rfl
      | fail failure => exact .inr ⟨failure, rfl⟩
      | arrive =>
          simp only [step, isOpen, if_true, Option.some.injEq] at stepped
          simp [← stepped] at shut
      | reopen =>
          cases stepped
          cases shut
      | serve =>
          simp only [step, isOpen, if_true] at stepped
          rw [leave_isOpen stepped, isOpen] at shut
          cases shut
      | dismiss =>
          rw [leave_isOpen stepped, isOpen] at shut
          cases shut
      | clear => simp [step, isOpen] at stepped

/-- The customers that were served, in the order in which they were. -/
def satisfied (desk : Desk Failure) : List Nat :=
  (desk.left.filter (fun leaving =>
    match leaving.2 with
    | .served => true
    | _ => false)).map Prod.fst

theorem Moves.satisfied_eq {desk after : Desk Failure}
    {event? : Option (Event Failure)} (moves : desk.Moves after event?)
    (other : event? ≠ some .serve) : after.satisfied = desk.satisfied := by
  have left : ∀ {isOpen : Bool} {how : Leaving Failure}, how ≠ .served →
      leave how { desk with isOpen := isOpen } = some after →
      after.satisfied = desk.satisfied := by
    intro isOpen how notServed left
    unfold leave at left
    split at left
    · cases left
    · cases left
      cases how <;> simp_all [satisfied]
  cases event? with
  | none =>
      cases moves
      rfl
  | some event =>
      have stepped : desk.step event = some after := moves
      cases event with
      | serve => exact (other rfl).elim
      | dismiss => exact left (by simp) stepped
      | shut =>
          cases stepped
          rfl
      | reopen =>
          cases stepped
          rfl
      | arrive =>
          simp only [step] at stepped
          split at stepped
          · cases stepped
            rfl
          · cases stepped
            simp [satisfied]
      | fail failure =>
          simp only [step] at stepped
          split at stepped
          · exact left (by simp) stepped
          · cases stepped
      | clear =>
          simp only [step] at stepped
          split at stepped
          · cases stepped
          · cases stepped
            simp [satisfied, List.filter_map, Function.comp_def]

theorem Moves.satisfied_serve {desk after : Desk Failure}
    (moves : desk.Moves after (some .serve)) {front : Nat} {rest : List Nat}
    (line : desk.line = front :: rest) :
    after.satisfied = desk.satisfied ++ [front] := by
  have stepped : desk.step .serve = some after := moves
  simp only [step] at stepped
  split at stepped
  · simp only [leave, line, Option.some.injEq] at stepped
    simp [← stepped, satisfied]
  · cases stepped

def machine (Failure : Type u) : Machine (Desk Failure) (Event Failure) where
  start := {}
  step := step

def waited (leaving : Nat × Leaving Failure) : Bool :=
  match leaving.2 with
  | .refused => false
  | _ => true

/-- The customers that were let in, in the order in which they leave. -/
def queued (desk : Desk Failure) : List Nat :=
  (desk.left.filter waited).map Prod.fst ++ desk.line

structure Orderly (desk : Desk Failure) : Prop where
  /-- everybody who came is in the line or has left, and only once -/
  once : (desk.left.map Prod.fst ++ desk.line).Perm (List.range desk.arrived)
  /-- nobody is overtaken -/
  inOrder : desk.queued.Pairwise (· < ·)

/-- Those that are served are among those that were let in, in their order. -/
theorem satisfied_sublist (desk : Desk Failure) :
    desk.satisfied.Sublist ((desk.left.filter waited).map Prod.fst) := by
  refine List.Sublist.map _ (List.monotone_filter_right _ ?_)
  intro leaving served
  unfold waited
  split at served
  · simp [*]
  · cases served

namespace Orderly

variable {desk after : Desk Failure}

theorem newest (orderly : desk.Orderly) {customer : Nat}
    (queued : customer ∈ desk.queued) : customer < desk.arrived := by
  refine List.mem_range.mp (orderly.once.subset ?_)
  rcases List.mem_append.mp queued with left | waiting
  · obtain ⟨leaving, member, rfl⟩ := List.mem_map.mp left
    exact List.mem_append_left _
      (List.mem_map_of_mem (List.mem_filter.mp member).1)
  · exact List.mem_append_right _ waiting

theorem arrive_open (orderly : desk.Orderly) :
    ({ desk with
      arrived := desk.arrived + 1
      line := desk.line ++ [desk.arrived] } : Desk Failure).Orderly where
  once := by
    rw [← List.append_assoc, List.range_succ]
    exact orderly.once.append_right _
  inOrder := by
    simp only [queued, ← List.append_assoc]
    refine List.pairwise_append.mpr
      ⟨orderly.inOrder, List.pairwise_singleton _ _, ?_⟩
    intro earlier member customer here
    rw [List.mem_singleton.mp here]
    exact orderly.newest member

theorem arrive_shut (orderly : desk.Orderly) :
    ({ desk with
      arrived := desk.arrived + 1
      left := desk.left ++ [(desk.arrived, .refused)] }
        : Desk Failure).Orderly where
  once := by
    have moved : (desk.left.map Prod.fst ++ [desk.arrived] ++
        desk.line).Perm ((desk.left.map Prod.fst ++ desk.line) ++
          [desk.arrived]) := by
      rw [List.append_assoc, List.append_assoc]
      exact List.perm_append_comm.append_left _
    rw [List.map_append, List.range_succ]
    exact moved.trans (orderly.once.append_right _)
  inOrder := by
    have kept := orderly.inOrder
    simpa [queued, waited] using kept

theorem leave {how : Leaving Failure} (notRefused : how ≠ .refused)
    (orderly : desk.Orderly) {isOpen : Bool}
    (left : Desk.leave how { desk with isOpen := isOpen } = some after) :
    after.Orderly := by
  cases line : desk.line with
  | nil => simp [Desk.leave, line] at left
  | cons front rest =>
      simp only [Desk.leave, line, Option.some.injEq] at left
      subst left
      have waits : waited (front, how) = true := by
        cases how <;> first | rfl | exact (notRefused rfl).elim
      constructor
      · have kept := orderly.once
        simpa [line] using kept
      · have kept := orderly.inOrder
        simpa [queued, waits, line] using kept

theorem clear (orderly : desk.Orderly) :
    ({ desk with
      line := []
      left := desk.left ++
        desk.line.map (fun customer => (customer, .dismissed)) }
          : Desk Failure).Orderly where
  once := by
    have kept := orderly.once
    simpa [Function.comp_def] using kept
  inOrder := by
    have kept := orderly.inOrder
    simpa [queued, waited, List.filter_map, Function.comp_def] using kept

theorem step {event : Event Failure} (orderly : desk.Orderly)
    (stepped : desk.step event = some after) : after.Orderly := by
  cases event with
  | arrive =>
      simp only [Desk.step] at stepped
      split at stepped
      · cases stepped
        exact orderly.arrive_open
      · cases stepped
        exact orderly.arrive_shut
  | reopen =>
      cases stepped
      exact ⟨orderly.once, orderly.inOrder⟩
  | shut =>
      cases stepped
      exact ⟨orderly.once, orderly.inOrder⟩
  | serve =>
      simp only [Desk.step] at stepped
      split at stepped
      · exact orderly.leave (by simp) stepped
      · cases stepped
  | fail failure =>
      simp only [Desk.step] at stepped
      split at stepped
      · exact orderly.leave (by simp) stepped
      · cases stepped
  | dismiss => exact orderly.leave (by simp) stepped
  | clear =>
      simp only [Desk.step] at stepped
      split at stepped
      · cases stepped
      · cases stepped
        exact orderly.clear

end Orderly

theorem reached_fair {desk : Desk Failure}
    (reached : (machine Failure).Reached desk) : desk.Orderly :=
  reached.invariant ⟨.refl _, .nil⟩
    (fun _ _ _ _ orderly _ stepped => orderly.step stepped)

/-- The customer in front is attended to. -/
def Event.attends : Event Failure → Bool
  | .serve => true
  | .fail _ => true
  | _ => false

/-- Behind a failure nobody is attended to before the desk is opened again. -/
def Restarted (events : List (Event Failure)) : Prop :=
  ∀ before failure between event after,
    events = before ++ .fail failure :: (between ++ event :: after) →
    event.attends = true → .reopen ∈ between

variable {desk after : Desk Failure}

theorem fail_shuts {failure : Failure}
    (stepped : desk.step (.fail failure) = some after) :
    after.isOpen = false := by
  simp only [step] at stepped
  split at stepped
  · exact leave_isOpen stepped
  · cases stepped

theorem shut_step {event : Event Failure} (shut : desk.isOpen = false)
    (stepped : desk.step event = some after) (other : event ≠ .reopen) :
    after.isOpen = false ∧ event.attends = false := by
  cases event with
  | arrive =>
      simp only [step, shut, Bool.false_eq_true, if_false,
        Option.some.injEq] at stepped
      rw [← stepped]
      exact ⟨rfl, rfl⟩
  | reopen => exact (other rfl).elim
  | shut =>
      cases stepped
      exact ⟨rfl, rfl⟩
  | serve => simp [step, shut] at stepped
  | fail failure => simp [step, shut] at stepped
  | dismiss => exact ⟨(leave_isOpen stepped).trans shut, rfl⟩
  | clear =>
      simp only [step, shut, Bool.false_eq_true, if_false,
        Option.some.injEq] at stepped
      rw [← stepped]
      exact ⟨rfl, rfl⟩

theorem shut_run {events : List (Event Failure)} (shut : desk.isOpen = false)
    (executed : (machine Failure).run desk events = some after)
    (closed : .reopen ∉ events) : after.isOpen = false := by
  induction events generalizing desk with
  | nil =>
      cases executed
      exact shut
  | cons event events induction =>
      simp only [Machine.run] at executed
      split at executed
      · cases executed
      · next middle stepped =>
          have other : event ≠ .reopen := by
            rintro rfl
            exact closed List.mem_cons_self
          exact induction (shut_step shut stepped other).1 executed
            (fun member => closed (List.mem_cons_of_mem _ member))

theorem restarted_of_run {events : List (Event Failure)}
    (executed : (machine Failure).run desk events = some after) :
    Restarted events := by
  rintro before failure between event later rfl attends
  by_contra closed
  rw [Machine.run_append] at executed
  obtain ⟨failing, _, executed⟩ := Option.bind_eq_some_iff.mp executed
  simp only [Machine.run] at executed
  split at executed
  · cases executed
  · next failed stepped =>
      rw [Machine.run_append] at executed
      obtain ⟨waiting, run, executed⟩ := Option.bind_eq_some_iff.mp executed
      have shut := shut_run (fail_shuts stepped) run closed
      simp only [Machine.run] at executed
      split at executed
      · cases executed
      · next next' attended =>
          have other : event ≠ .reopen := by
            rintro rfl
            cases attends
          have idle := (shut_step shut attended other).2
          simp [idle] at attends

end Desk

end Fetchpp.Lib
