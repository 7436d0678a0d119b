import Mathlib.Algebra.GroupWithZero.Nat
import Mathlib.Data.List.Induction
import Mathlib.Data.List.Perm.Subperm
import Mathlib.Data.List.Sort

/-!
# Growing lists of components

A pool is a list of components that only grows.  A step of the whole changes
one component, or adds one and changes it at once, so that what every change
keeps holds of every component.
-/

namespace Fetchpp.Lib

universe u v

variable {α : Type u}

/-- The pool after a step; `Fresh` are the components that may be added. -/
inductive Touches (Fresh : α → Prop) (Change : α → α → Prop) :
    List α → List α → Prop where
  | none (pool : List α) : Touches Fresh Change pool pool
  | one {pool : List α} {index : Nat} {before after : α} :
      pool[index]? = some before →
      Change before after →
      Touches Fresh Change pool (pool.set index after)
  | new {pool : List α} {before after : α} :
      Fresh before →
      Change before after →
      Touches Fresh Change pool (pool ++ [after])

namespace Touches

variable {Fresh : α → Prop} {Change : α → α → Prop} {pool pool' : List α}

theorem all {Holds : α → Prop} (touches : Touches Fresh Change pool pool')
    (holds : ∀ component ∈ pool, Holds component)
    (fresh : ∀ component, Fresh component → Holds component)
    (change : ∀ before after,
      Change before after → Holds before → Holds after) :
    ∀ component ∈ pool', Holds component := by
  cases touches with
  | none => exact holds
  | one found changed =>
      intro component member
      rcases List.mem_or_eq_of_mem_set member with kept | changedOne
      · exact holds component kept
      · subst changedOne
        exact change _ _ changed (holds _ (List.mem_of_getElem? found))
  | new isNew changed =>
      intro component member
      rcases List.mem_append.mp member with kept | added
      · exact holds component kept
      · rw [List.mem_singleton.mp added]
        exact change _ _ changed (fresh _ isNew)

theorem getElem? (touches : Touches Fresh Change pool pool') {index : Nat}
    {after : α} (found : pool'[index]? = some after) :
    pool[index]? = some after ∨
      (∃ before, pool[index]? = some before ∧ Change before after) ∨
      (index = pool.length ∧ ∃ before, Fresh before ∧ Change before after) := by
  cases touches with
  | none => exact .inl found
  | @one touched before changed earlier change =>
      by_cases same : touched = index
      · subst same
        rw [List.getElem?_set_self
          (List.getElem?_eq_some_iff.mp earlier).1] at found
        cases found
        exact .inr (.inl ⟨before, earlier, change⟩)
      · rw [List.getElem?_set_ne same] at found
        exact .inl found
  | @new before added isNew change =>
      by_cases old : index < pool.length
      · rw [List.getElem?_append_left old] at found
        exact .inl found
      · have last : index = pool.length := by
          have inside := (List.getElem?_eq_some_iff.mp found).1
          simp only [List.length_append, List.length_singleton] at inside
          omega
        subst last
        rw [List.getElem?_concat_length] at found
        cases found
        exact .inr (.inr ⟨rfl, before, isNew, change⟩)

theorem length_le (touches : Touches Fresh Change pool pool') :
    pool.length ≤ pool'.length := by
  cases touches <;> simp

theorem mono {Fresh' : α → Prop} {Change' : α → α → Prop}
    (touches : Touches Fresh Change pool pool')
    (fresh : ∀ component, Fresh component → Fresh' component)
    (change : ∀ before after, Change before after → Change' before after) :
    Touches Fresh' Change' pool pool' := by
  cases touches with
  | none => exact .none _
  | one found changed => exact .one found (change _ _ changed)
  | new isNew changed => exact .new (fresh _ isNew) (change _ _ changed)

theorem getElem?_of_old (touches : Touches Fresh Change pool pool')
    {index : Nat} {before : α} (found : pool[index]? = some before) :
    ∃ after, pool'[index]? = some after ∧
      (after = before ∨ Change before after) := by
  have inside := (List.getElem?_eq_some_iff.mp found).1
  have longer := touches.length_le
  obtain ⟨after, still⟩ : ∃ after, pool'[index]? = some after :=
    ⟨_, List.getElem?_eq_getElem (by omega)⟩
  rcases touches.getElem? still with same | ⟨old, earlier, changed⟩ |
    ⟨last, _⟩
  · rw [found] at same
    exact ⟨_, still, .inl (Option.some.inj same).symm⟩
  · rw [found] at earlier
    cases earlier
    exact ⟨_, still, .inr changed⟩
  · omega

/-- What changes keep of each component, up to order, they keep of the pool. -/
theorem flatMap_perm {β : Type v} {parts : α → List β}
    (touches : Touches Fresh Change pool pool')
    (fresh : ∀ component, Fresh component → parts component = [])
    (change : ∀ before after,
      Change before after → (parts after).Perm (parts before)) :
    (pool'.flatMap parts).Perm (pool.flatMap parts) := by
  cases touches with
  | none => exact .rfl
  | @one index before after found changed =>
      have same := change _ _ changed
      clear changed
      induction pool generalizing index with
      | nil => simp at found
      | cons first rest induction =>
          cases index with
          | zero =>
              cases found
              exact same.append_right _
          | succ index => exact (induction found).append_left _
  | @new before after isNew changed =>
      have none := change _ _ changed
      rw [fresh _ isNew] at none
      simp [List.flatMap_append, none.eq_nil]

end Touches

theorem flatMap_subperm {β : Type v} {parts wholes : α → List β}
    {pool : List α}
    (within : ∀ component ∈ pool, (parts component).Subperm (wholes component)) :
    (pool.flatMap parts).Subperm (pool.flatMap wholes) := by
  induction pool with
  | nil => exact .refl _
  | cons first rest induction =>
      have head := within first List.mem_cons_self
      have tail := induction fun component member =>
        within component (List.mem_cons_of_mem _ member)
      simp only [List.flatMap_cons]
      exact List.Subperm.append head tail

theorem map_set_same {β : Type v} (view : α → β) {pool : List α} {index : Nat}
    {before after : α} (found : pool[index]? = some before)
    (same : view after = view before) :
    (pool.set index after).map view = pool.map view := by
  induction pool generalizing index with
  | nil => rfl
  | cons first rest induction =>
      cases index with
      | zero =>
          cases found
          simp [same]
      | succ index => simp [induction found]

/-- A relation of earlier to later components is kept by an exchange that
keeps it on both sides. -/
theorem pairwise_set {Rel : α → α → Prop} {pool : List α} {index : Nat}
    {before after : α} (pairwise : pool.Pairwise Rel)
    (found : pool[index]? = some before)
    (left : ∀ other, Rel before other → Rel after other)
    (right : ∀ other, Rel other before → Rel other after) :
    (pool.set index after).Pairwise Rel := by
  induction pool generalizing index with
  | nil => simp at found
  | cons first rest induction =>
      obtain ⟨ahead, behind⟩ := List.pairwise_cons.mp pairwise
      cases index with
      | zero =>
          cases found
          exact List.pairwise_cons.mpr
            ⟨fun other member => left other (ahead other member), behind⟩
      | succ index =>
          refine List.pairwise_cons.mpr ⟨?_, induction behind found⟩
          intro other member
          rcases List.mem_or_eq_of_mem_set member with kept | changed
          · exact ahead other kept
          · exact changed ▸ right first
              (ahead before (List.mem_of_getElem? found))

theorem sum_set (weight : α → Nat) {pool : List α} {index : Nat}
    {before : α} (after : α) (found : pool[index]? = some before) :
    ((pool.set index after).map weight).sum + weight before =
      (pool.map weight).sum + weight after := by
  induction pool generalizing index with
  | nil => simp at found
  | cons first rest induction =>
      cases index with
      | zero =>
          cases found
          simp only [List.set_cons_zero, List.map_cons, List.sum_cons]
          omega
      | succ index =>
          have later := induction found
          simp only [List.set_cons_succ, List.map_cons, List.sum_cons]
          omega

theorem nodup_of_subperm {part whole : List α} (within : part.Subperm whole)
    (nodup : whole.Nodup) : part.Nodup := by
  obtain ⟨ordered, perm, sublist⟩ := within
  exact perm.nodup_iff.mp (nodup.sublist sublist)

theorem forall₂_set {β : Type v} {Rel : α → β → Prop} {pool : List α}
    {others : List β} (related : List.Forall₂ Rel pool others) (index : Nat)
    {component : α} {other : β} (new : Rel component other) :
    List.Forall₂ Rel (pool.set index component) (others.set index other) := by
  induction related generalizing index with
  | nil => exact .nil
  | cons first rest induction =>
      cases index with
      | zero => exact .cons new rest
      | succ index => exact .cons first (induction index)

theorem forall₂_set_left {β : Type v} {Rel : α → β → Prop} {pool : List α}
    {others : List β} (related : List.Forall₂ Rel pool others) {index : Nat}
    {before after : α} (found : pool[index]? = some before)
    (change : ∀ other, Rel before other → Rel after other) :
    List.Forall₂ Rel (pool.set index after) others := by
  induction related generalizing index with
  | nil => simp at found
  | cons first rest induction =>
      cases index with
      | zero =>
          cases found
          exact .cons (change _ first) rest
      | succ index => exact .cons first (induction found)

theorem forall₂_getElem? {β : Type v} {Rel : α → β → Prop} {pool : List α}
    {others : List β} (related : List.Forall₂ Rel pool others) {index : Nat}
    {component : α} (found : pool[index]? = some component) :
    ∃ other, others[index]? = some other ∧ Rel component other := by
  induction related generalizing index with
  | nil => simp at found
  | cons first rest induction =>
      cases index with
      | zero =>
          cases found
          exact ⟨_, rfl, first⟩
      | succ index => exact induction found

/-- The entries of a table at the given indexes. -/
def pick (table : List α) (indexes : List Nat) : List α :=
  indexes.filterMap (table[·]?)

theorem pick_range (table : List α) :
    pick table (List.range table.length) = table := by
  induction table using List.reverseRecOn with
  | nil => rfl
  | append_singleton table last induction =>
      have same : (List.range table.length).filterMap ((table ++ [last])[·]?) =
          (List.range table.length).filterMap (table[·]?) := by
        refine List.filterMap_congr fun index inside => ?_
        rw [List.getElem?_append_left (List.mem_range.mp inside)]
      rw [pick] at induction
      simp [pick, List.range_succ, same, induction]

theorem pick_subperm {table : List α} {indexes : List Nat}
    (inside : indexes.Subperm (List.range table.length)) :
    (pick table indexes).Subperm table := by
  obtain ⟨ordered, perm, sublist⟩ := inside
  have picked := sublist.filterMap (table[·]?)
  change (pick table ordered).Sublist (pick table _) at picked
  rw [pick_range] at picked
  exact ⟨_, perm.filterMap _, picked⟩

theorem pick_sublist {table : List α} {indexes : List Nat}
    (sorted : indexes.Pairwise (· < ·))
    (inside : ∀ index ∈ indexes, index < table.length) :
    (pick table indexes).Sublist table := by
  have nodup : indexes.Nodup := sorted.imp Nat.ne_of_lt
  have among : indexes.Subperm (List.range table.length) :=
    List.subperm_of_subset nodup
      (fun index member => List.mem_range.mpr (inside index member))
  have ordered := List.sublist_of_subperm_of_pairwise among sorted
    List.pairwise_lt_range
  have picked := ordered.filterMap (table[·]?)
  change (pick table indexes).Sublist (pick table _) at picked
  rwa [pick_range] at picked

theorem pick_perm {table : List α} {indexes : List Nat}
    (all : indexes.Perm (List.range table.length)) :
    (pick table indexes).Perm table := by
  have picked := all.filterMap (table[·]?)
  change (pick table indexes).Perm (pick table _) at picked
  rwa [pick_range] at picked

end Fetchpp.Lib
