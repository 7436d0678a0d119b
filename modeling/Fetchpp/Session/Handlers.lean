import Fetchpp.Session.Drivers

/-!
# The completion handlers of pushes

The handler of a push is moved out by the refusal in `push_op`, by `complete`
or by `cancel`.  A task that `complete` has answered stays in the queue until
its `advance_task` runs, so the situations of a push are four; each of them
fixes the posts made for it.
-/

namespace Fetchpp.Session

inductive Situation where
  | refused
  | waiting
  | completed
  | popped
  deriving DecidableEq, Repr

/-- The posts of the handler of one push, oldest first. -/
def Core.postsOf (c : Core) (push : PushId) : List Posting :=
  c.posted.filter (fun posting => posting.push = push)

def Core.InSituation (c : Core) (push : PushId) : Situation → Prop
  | .refused => push ∈ c.refused
  | .waiting => push ∈ c.tasks ∧ ¬c.Completed push
  | .completed => (∃ rest, c.tasks = push :: rest) ∧ c.Completed push
  | .popped => push ∈ c.popped

/-- The posts that a situation allows. -/
def Situation.Posts (push : PushId) (posts : List Posting) : Situation → Prop
  | .refused => posts = [⟨push, some .operationAborted, .refusal⟩]
  | .waiting => posts = []
  | .completed => ∃ ec, posts = [⟨push, ec, .complete⟩]
  | .popped => ∃ ec poster, posts = [⟨push, ec, poster⟩] ∧ poster ≠ .refusal

private theorem filter_eq_singleton {α β : Type} [DecidableEq β]
    (key : α → β) {items : List α} (nodup : (items.map key).Nodup)
    {item : α} (member : item ∈ items) :
    items.filter (fun other => key other = key item) = [item] := by
  induction items with
  | nil => cases member
  | cons head tail induction =>
      simp only [List.map_cons, List.nodup_cons] at nodup
      rcases List.mem_cons.mp member with here | later
      · subst here
        have none : tail.filter (fun other => key other = key item) = [] := by
          refine List.filter_eq_nil_iff.mpr ?_
          intro other inTail same
          exact nodup.1 (List.mem_map.mpr ⟨other, inTail, by simpa using same⟩)
        simp [none]
      · have different : key head ≠ key item := by
          intro same
          exact nodup.1 (same ▸ List.mem_map.mpr ⟨item, later, rfl⟩)
        simp [different, induction nodup.2 later]

private theorem filter_of_imp {α : Type} (p q : α → Bool) (items : List α)
    (implied : ∀ item ∈ items, p item = true → q item = true) :
    (items.filter q).filter p = items.filter p := by
  rw [List.filter_filter]
  refine List.filter_congr ?_
  intro item member
  cases holds : p item with
  | false => simp
  | true => simp [implied item member holds]

namespace State.Invariant

theorem served_prefix {s : State} (invariant : s.Invariant) :
    s.core.served <+: s.core.accepted := by
  rw [invariant.numbered.order]
  cases invariant.driven with
  | idle _ _ served => exact ⟨s.core.tasks, by rw [served]⟩
  | unrun _ _ _ _ served => exact ⟨s.core.tasks, by rw [served]⟩
  | live _ _ _ _ served => exact ⟨s.core.tasks, by rw [served]⟩
  | completed front rest tasks _ served =>
      exact ⟨rest, by rw [served, tasks]; simp⟩

theorem served_nodup {s : State} (invariant : s.Invariant) :
    s.core.served.Nodup :=
  (List.nodup_append.mp invariant.numbered.nodup).1.sublist
    invariant.served_prefix.sublist

theorem served_cases {s : State} (invariant : s.Invariant) {push : PushId}
    (served : push ∈ s.core.served) :
    push ∈ s.core.popped ∨
      ((∃ rest, s.core.tasks = push :: rest) ∧ s.core.Completed push) := by
  cases invariant.driven with
  | idle _ _ all => exact .inl (all ▸ served)
  | unrun _ _ _ _ all => exact .inl (all ▸ served)
  | live _ _ _ _ all => exact .inl (all ▸ served)
  | completed front rest tasks _ all _ posted =>
      rw [all] at served
      rcases List.mem_append.mp served with earlier | single
      · exact .inl earlier
      · rw [List.mem_singleton.mp single]
        exact .inr ⟨⟨rest, tasks⟩, posted⟩

theorem popped_served {s : State} (invariant : s.Invariant) {push : PushId}
    (popped : push ∈ s.core.popped) : push ∈ s.core.served := by
  cases invariant.driven with
  | idle _ _ all => exact all ▸ popped
  | unrun _ _ _ _ all => exact all ▸ popped
  | live _ _ _ _ all => exact all ▸ popped
  | completed _ _ _ _ all => exact all ▸ List.mem_append_left _ popped

theorem served_of_completed {c : Core} {push : PushId}
    (completed : c.Completed push) : push ∈ c.served := by
  obtain ⟨ec, posted⟩ := completed
  exact List.mem_map.mpr
    ⟨_, List.mem_filter.mpr ⟨posted, by simp⟩, rfl⟩

theorem served_not_refused {s : State} (invariant : s.Invariant)
    {push : PushId} (served : push ∈ s.core.served) :
    push ∉ s.core.refused := by
  intro refused
  exact (List.nodup_append.mp invariant.numbered.nodup).2.2 push
    (invariant.served_prefix.subset served) push refused rfl

theorem postsOf_served {s : State} (invariant : s.Invariant) {posting : Posting}
    (posted : posting ∈ s.core.posted) (answer : posting.poster ≠ .refusal) :
    s.core.postsOf posting.push = [posting] := by
  have served : posting.push ∈ s.core.served :=
    List.mem_map.mpr ⟨posting, List.mem_filter.mpr ⟨posted, by simpa⟩, rfl⟩
  have onlyAnswers : ∀ other ∈ s.core.posted,
      decide (other.push = posting.push) = true →
      decide (other.poster ≠ .refusal) = true := by
    intro other member same
    by_contra isRefusal
    have refusal : other ∈ s.core.refusals :=
      List.mem_filter.mpr ⟨member, by simpa using isRefusal⟩
    rw [invariant.numbered.refusals] at refusal
    obtain ⟨refused, inRefused, equal⟩ := List.mem_map.mp refusal
    have push : refused = posting.push := by
      rw [← equal] at same
      simpa using same
    exact invariant.served_not_refused served (push ▸ inRefused)
  rw [Core.postsOf, ← filter_of_imp _ _ _ onlyAnswers]
  exact filter_eq_singleton Posting.push invariant.served_nodup
    (List.mem_filter.mpr ⟨posted, by simpa⟩)

theorem postsOf_unserved {s : State} (invariant : s.Invariant) {push : PushId}
    (unserved : push ∉ s.core.served) :
    s.core.postsOf push =
      if push ∈ s.core.refused then
        [⟨push, some .operationAborted, .refusal⟩]
      else [] := by
  have onlyRefusals : ∀ other ∈ s.core.posted,
      decide (other.push = push) = true →
      decide (other.poster = .refusal) = true := by
    intro other member same
    by_contra answer
    exact unserved (List.mem_map.mpr ⟨other,
      List.mem_filter.mpr ⟨member, by simpa using answer⟩, by simpa using same⟩)
  have keys : s.core.refusals.map Posting.push = s.core.refused := by
    rw [invariant.numbered.refusals, List.map_map]
    exact List.map_id _
  rw [Core.postsOf, ← filter_of_imp _ _ _ onlyRefusals]
  change s.core.refusals.filter _ = _
  split
  case isTrue refused =>
    have nodup : (s.core.refusals.map Posting.push).Nodup := by
      rw [keys]
      exact (List.nodup_append.mp invariant.numbered.nodup).2.1
    have member : ⟨push, some .operationAborted, .refusal⟩ ∈
        s.core.refusals := by
      rw [invariant.numbered.refusals]
      exact List.mem_map.mpr ⟨push, refused, rfl⟩
    exact filter_eq_singleton Posting.push nodup member
  case isFalse accepted =>
    refine List.filter_eq_nil_iff.mpr ?_
    intro other member same
    have inRefused : other.push ∈ s.core.refusals.map Posting.push :=
      List.mem_map.mpr ⟨other, member, rfl⟩
    rw [keys] at inRefused
    exact accepted ((of_decide_eq_true same) ▸ inRefused)

end State.Invariant

/-- The handlers of all pushes that have run. -/
structure State.HandlersAccounted (s : State) : Prop where
  atMostOnce : ∀ push, (s.core.postsOf push).length ≤ 1
  oneSituation : ∀ push, push < s.core.pushes →
    ∃! situation, s.core.InSituation push situation
  posts : ∀ push situation, s.core.InSituation push situation →
    situation.Posts push (s.core.postsOf push)
  /-- the handlers of accepted pushes, in the order of acceptance -/
  inOrder : s.core.served <+: s.core.accepted

namespace State.Invariant

theorem situation_posts {s : State} (invariant : s.Invariant) {push : PushId}
    {situation : Situation} (found : s.core.InSituation push situation) :
    situation.Posts push (s.core.postsOf push) := by
  cases situation with
  | refused =>
      have refused : push ∈ s.core.refused := found
      have unserved : push ∉ s.core.served := fun served =>
        invariant.served_not_refused served refused
      have posts := invariant.postsOf_unserved unserved
      rwa [if_pos refused] at posts
  | waiting =>
      obtain ⟨queued, notCompleted⟩ := found
      have accepted : push ∈ s.core.accepted := by
        rw [invariant.numbered.order]
        exact List.mem_append_right _ queued
      have unserved : push ∉ s.core.served := by
        intro served
        rcases invariant.served_cases served with popped | ⟨_, completed⟩
        · have nodup := (List.nodup_append.mp invariant.numbered.nodup).1
          rw [invariant.numbered.order] at nodup
          exact (List.nodup_append.mp nodup).2.2 push popped push queued rfl
        · exact notCompleted completed
      have notRefused : push ∉ s.core.refused := fun refused =>
        (List.nodup_append.mp invariant.numbered.nodup).2.2 push accepted push
          refused rfl
      have posts := invariant.postsOf_unserved unserved
      rwa [if_neg notRefused] at posts
  | completed =>
      obtain ⟨ec, posted⟩ := found.2
      exact ⟨ec, invariant.postsOf_served posted (by simp)⟩
  | popped =>
      obtain ⟨posting, member, same⟩ :=
        List.mem_map.mp (invariant.popped_served found)
      obtain ⟨posted, answer⟩ := List.mem_filter.mp member
      have notRefusal : posting.poster ≠ .refusal := by simpa using answer
      refine ⟨posting.ec, posting.poster, ?_, notRefusal⟩
      rw [← same]
      exact invariant.postsOf_served posted notRefusal

theorem exists_situation {s : State} (invariant : s.Invariant)
    {push : PushId} (known : push < s.core.pushes) :
    ∃ situation, s.core.InSituation push situation := by
  rcases List.mem_append.mp ((invariant.numbered.known push).mpr known) with
    accepted | refused
  · rw [invariant.numbered.order] at accepted
    rcases List.mem_append.mp accepted with popped | queued
    · exact ⟨.popped, popped⟩
    · by_cases completed : s.core.Completed push
      · rcases invariant.served_cases (served_of_completed completed) with
          popped | front
        · exact ⟨.popped, popped⟩
        · exact ⟨.completed, front⟩
      · exact ⟨.waiting, queued, completed⟩
  · exact ⟨.refused, refused⟩

theorem situation_unique {s : State} (invariant : s.Invariant)
    {push : PushId} {first second : Situation}
    (left : s.core.InSituation push first)
    (right : s.core.InSituation push second) : first = second := by
  have nodup := List.nodup_append.mp invariant.numbered.nodup
  rw [invariant.numbered.order] at nodup
  have inQueue := List.nodup_append.mp nodup.1
  have queued_not_refused : push ∈ s.core.tasks → push ∉ s.core.refused :=
    fun queued refused => nodup.2.2 push (List.mem_append_right _ queued)
      push refused rfl
  have popped_not_refused : push ∈ s.core.popped → push ∉ s.core.refused :=
    fun popped refused => nodup.2.2 push (List.mem_append_left _ popped)
      push refused rfl
  have popped_not_queued : push ∈ s.core.popped → push ∉ s.core.tasks :=
    fun popped queued => inQueue.2.2 push popped push queued rfl
  have completed_queued : s.core.InSituation push .completed →
      push ∈ s.core.tasks := by
    rintro ⟨⟨rest, tasks⟩, _⟩
    simp [tasks]
  cases first with
  | refused =>
      cases second with
      | refused => rfl
      | waiting => exact (queued_not_refused right.1 left).elim
      | completed =>
          exact (queued_not_refused (completed_queued right) left).elim
      | popped => exact (popped_not_refused right left).elim
  | waiting =>
      cases second with
      | refused => exact (queued_not_refused left.1 right).elim
      | waiting => rfl
      | completed => exact (left.2 right.2).elim
      | popped => exact (popped_not_queued right left.1).elim
  | completed =>
      cases second with
      | refused => exact (queued_not_refused (completed_queued left) right).elim
      | waiting => exact (right.2 left.2).elim
      | completed => rfl
      | popped => exact (popped_not_queued right (completed_queued left)).elim
  | popped =>
      cases second with
      | refused => exact (popped_not_refused left right).elim
      | waiting => exact (popped_not_queued left right.1).elim
      | completed => exact (popped_not_queued left (completed_queued right)).elim
      | popped => rfl

end State.Invariant

theorem reached_handlersAccounted {s : State} (reached : machine.Reached s) :
    s.HandlersAccounted := by
  have invariant := reached_invariant reached
  refine
    { atMostOnce := ?_
      oneSituation := ?_
      posts := fun push situation => invariant.situation_posts
      inOrder := invariant.served_prefix }
  · intro push
    by_cases served : push ∈ s.core.served
    · obtain ⟨posting, member, same⟩ := List.mem_map.mp served
      obtain ⟨posted, answer⟩ := List.mem_filter.mp member
      rw [← same, invariant.postsOf_served posted (by simpa using answer)]
      exact Nat.le_refl 1
    · rw [invariant.postsOf_unserved served]
      split <;> simp
  · intro push known
    obtain ⟨situation, found⟩ := invariant.exists_situation known
    exact ⟨situation, found,
      fun other also => invariant.situation_unique also found⟩

/-- Three pushes, a stop while the first one is being exchanged, and a fourth
push; the first is completed, the others are cancelled or refused. -/
def stoppedRun : List Event :=
  [.push, .push, .push, .post .processTask true, .stop .yes, .push,
    .resume (.exchange ⟨0, none, .exchanged, true⟩) (some .eof) true,
    .post .advanceTask true]

theorem handlersAccounted_of_stoppedRun :
    ∃ s, machine.run machine.start stoppedRun = some s ∧
      s.core.posted.map (fun posting => (posting.push, posting.poster)) =
        [(3, .refusal), (0, .complete), (1, .cancel), (2, .cancel)] ∧
      s.HandlersAccounted :=
  ⟨_, rfl, rfl,
    reached_handlersAccounted (Lib.Machine.reached_of_run stoppedRun rfl)⟩

end Fetchpp.Session
