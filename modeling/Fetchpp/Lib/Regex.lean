import Mathlib.Data.List.Forall2

/-!
# Regular expressions with captures

A backtracking matcher tries the ways in which an expression can match a
prefix of its input one after the other.  `ways` lists them in the order in
which they are tried; a match of the whole input is the first one that leaves
nothing over.  `Matches` says which ways there are, without their order.
-/

namespace Fetchpp.Lib

/-- A repetition runs at least `min` times and at most `max` times, if there is
a bound; a lazy one tries to stop before it tries to go on. -/
inductive Regex (Symbol : Type) where
  | empty
  | one (accepts : Symbol → Bool)
  | seq (first second : Regex Symbol)
  | group (index : Nat) (body : Regex Symbol)
  | repeated (isLazy : Bool) (min : Nat) (max : Option Nat)
      (body : Regex Symbol)

variable {Symbol : Type}

abbrev Captures (Symbol : Type) := List (Nat × List Symbol)

/-- A prefix of the input that an expression matches, and what follows it. -/
structure Way (Symbol : Type) where
  taken : List Symbol
  rest : List Symbol
  captures : Captures Symbol := []

namespace Way

def nothing (input : List Symbol) : Way Symbol :=
  { taken := [], rest := input }

/-- Goes on with a way on what follows. -/
def append (way next : Way Symbol) : Way Symbol :=
  { taken := way.taken ++ next.taken
    rest := next.rest
    captures := next.captures ++ way.captures }

def capture (index : Nat) (way : Way Symbol) : Way Symbol :=
  { way with captures := (index, way.taken) :: way.captures }

end Way

namespace Regex

/-- The ways of a repetition that may run `extra` times.  A run that is not
required takes a symbol. -/
def optionalWays (ways : List Symbol → List (Way Symbol)) (isLazy : Bool) :
    Nat → List Symbol → List (Way Symbol)
  | 0, input => [.nothing input]
  | extra + 1, input =>
      let more := ((ways input).filter (fun way => !way.taken.isEmpty)).flatMap
        (fun way => (optionalWays ways isLazy extra way.rest).map way.append)
      if isLazy then .nothing input :: more else more ++ [.nothing input]

/-- The ways of a repetition that has to run `min` times and may run `extra`
times after that. -/
def repeatWays (ways : List Symbol → List (Way Symbol)) (isLazy : Bool)
    (extra : Nat) : Nat → List Symbol → List (Way Symbol)
  | 0, input => optionalWays ways isLazy extra input
  | min + 1, input =>
      (ways input).flatMap
        (fun way => (repeatWays ways isLazy extra min way.rest).map way.append)

def ways : Regex Symbol → List Symbol → List (Way Symbol)
  | empty, input => [.nothing input]
  | one _, [] => []
  | one accepts, c :: rest => if accepts c then [⟨[c], rest, []⟩] else []
  | seq first second, input =>
      (first.ways input).flatMap
        (fun way => (second.ways way.rest).map way.append)
  | group index body, input => (body.ways input).map (Way.capture index)
  | repeated isLazy min max body, input =>
      let extra :=
        match max with
        | some max => max - min
        | none => input.length
      repeatWays body.ways isLazy extra min input

/-- The captures of a match of the whole input. -/
def fullMatch (regex : Regex Symbol) (input : List Symbol) :
    Option (Captures Symbol) :=
  ((regex.ways input).find? (fun way => way.rest.isEmpty)).map Way.captures

def literal (same : Symbol → Symbol → Bool) : List Symbol → Regex Symbol
  | [] => empty
  | c :: rest => seq (one (same c)) (literal same rest)

/-- A repetition of what is matched by `Matches`; without a bound `extra` is
`none`. -/
inductive Repeats (Matches : List Symbol → Captures Symbol → Prop) :
    Nat → Option Nat → List Symbol → Captures Symbol → Prop where
  | stop {extra : Option Nat} : Repeats Matches 0 extra [] []
  | must {min : Nat} {extra : Option Nat} {s rest : List Symbol}
      {captures later : Captures Symbol} :
      Matches s captures →
      Repeats Matches min extra rest later →
      Repeats Matches (min + 1) extra (s ++ rest) (later ++ captures)
  | may {extra more : Option Nat} {s rest : List Symbol}
      {captures later : Captures Symbol} :
      Matches s captures →
      s ≠ [] →
      Repeats Matches 0 extra rest later →
      more = extra.map (· + 1) →
      Repeats Matches 0 more (s ++ rest) (later ++ captures)

def Matches : Regex Symbol → List Symbol → Captures Symbol → Prop
  | empty, s, captures => s = [] ∧ captures = []
  | one accepts, s, captures =>
      ∃ c, accepts c = true ∧ s = [c] ∧ captures = []
  | seq first second, s, captures =>
      ∃ front captured back captured', first.Matches front captured ∧
        second.Matches back captured' ∧
        s = front ++ back ∧ captures = captured' ++ captured
  | group index body, s, captures =>
      ∃ captured, body.Matches s captured ∧ captures = (index, s) :: captured
  | repeated _ min max body, s, captures =>
      Repeats body.Matches min (max.map (· - min)) s captures

/-- The ways through an input are those that take a match off its front. -/
def Lists (ways : List Symbol → List (Way Symbol))
    (Matches : List Symbol → Captures Symbol → Prop) : Prop :=
  ∀ input way, way ∈ ways input ↔
    way.taken ++ way.rest = input ∧ Matches way.taken way.captures

theorem mem_append_ways {ways : List Symbol → List (Way Symbol)}
    {Matches : List Symbol → Captures Symbol → Prop}
    (lists : Lists ways Matches) (first way : Way Symbol) :
    way ∈ (ways first.rest).map first.append ↔
      ∃ back captured, Matches back captured ∧
        back ++ way.rest = first.rest ∧ way.taken = first.taken ++ back ∧
        way.captures = captured ++ first.captures := by
  rw [List.mem_map]
  constructor
  · rintro ⟨next, member, rfl⟩
    obtain ⟨splits, matched⟩ := (lists _ next).mp member
    exact ⟨next.taken, next.captures, matched, splits, rfl, rfl⟩
  · rintro ⟨back, captured, matched, splits, taken, captures⟩
    refine ⟨⟨back, way.rest, captured⟩, (lists _ _).mpr ⟨splits, matched⟩, ?_⟩
    obtain ⟨wayTaken, wayRest, wayCaptures⟩ := way
    simp only at taken captures
    simp [Way.append, taken, captures]

theorem Repeats.of_unbounded {Matches : List Symbol → Captures Symbol → Prop}
    {min : Nat} {extra : Option Nat} {s : List Symbol}
    {captures : Captures Symbol} (repeats : Repeats Matches min extra s captures)
    (unbounded : extra = none) {bound : Nat} (le : s.length ≤ bound) :
    Repeats Matches min (some bound) s captures := by
  induction repeats generalizing bound with
  | stop => exact .stop
  | must matched rest induction =>
      refine .must matched (induction unbounded ?_)
      simp only [List.length_append] at le
      omega
  | @may extra more s rest captures later matched nonempty repeats counted
      induction =>
      have positive := List.length_pos_iff.mpr nonempty
      simp only [List.length_append] at le
      obtain ⟨less, rfl⟩ : ∃ less, bound = less + 1 :=
        ⟨bound - 1, by omega⟩
      have none : extra = none := by
        cases extra with
        | none => rfl
        | some extra => simp [unbounded] at counted
      exact .may matched nonempty (induction none (by omega)) rfl

theorem Repeats.unbounded {Matches : List Symbol → Captures Symbol → Prop}
    {min : Nat} {extra : Option Nat} {s : List Symbol}
    {captures : Captures Symbol} (repeats : Repeats Matches min extra s captures) :
    Repeats Matches min none s captures := by
  induction repeats with
  | stop => exact .stop
  | must matched rest induction => exact .must matched induction
  | may matched nonempty rest counted induction =>
      exact .may matched nonempty induction rfl

section Repeats

variable {Matches : List Symbol → Captures Symbol → Prop} {s : List Symbol}
  {captures : Captures Symbol}

theorem repeats_zero :
    Repeats Matches 0 (some 0) s captures ↔ s = [] ∧ captures = [] := by
  constructor
  · intro repeats
    cases repeats with
    | stop => exact ⟨rfl, rfl⟩
    | @may extra _ _ _ _ _ matched nonempty rest counted =>
        cases extra <;> simp at counted
  · rintro ⟨rfl, rfl⟩
    exact .stop

theorem repeats_optional {extra : Nat} :
    Repeats Matches 0 (some (extra + 1)) s captures ↔
      (s = [] ∧ captures = []) ∨
      ∃ front captured back captured', (Matches front captured ∧ front ≠ []) ∧
        Repeats Matches 0 (some extra) back captured' ∧
        s = front ++ back ∧ captures = captured' ++ captured := by
  constructor
  · intro repeats
    cases repeats with
    | stop => exact .inl ⟨rfl, rfl⟩
    | @may less _ _ _ _ _ matched nonempty rest counted =>
        cases less with
        | none => simp at counted
        | some less =>
            obtain rfl : extra = less := by simpa using counted
            exact .inr ⟨_, _, _, _, ⟨matched, nonempty⟩, rest, rfl, rfl⟩
  · rintro (⟨rfl, rfl⟩ | ⟨_, _, _, _, ⟨matched, nonempty⟩, rest, rfl, rfl⟩)
    · exact .stop
    · exact .may matched nonempty rest rfl

theorem repeats_required {min : Nat} {extra : Option Nat} :
    Repeats Matches (min + 1) extra s captures ↔
      ∃ front captured back captured', Matches front captured ∧
        Repeats Matches min extra back captured' ∧
        s = front ++ back ∧ captures = captured' ++ captured := by
  constructor
  · intro repeats
    cases repeats with
    | must matched rest => exact ⟨_, _, _, _, matched, rest, rfl, rfl⟩
  · rintro ⟨_, _, _, _, matched, rest, rfl, rfl⟩
    exact .must matched rest

end Repeats

theorem lists_flatMap {ways ways' : List Symbol → List (Way Symbol)}
    {Matches Matches' : List Symbol → Captures Symbol → Prop}
    (lists : Lists ways Matches) (lists' : Lists ways' Matches')
    (input : List Symbol) (way : Way Symbol) :
    way ∈ (ways input).flatMap
        (fun first => (ways' first.rest).map first.append) ↔
      way.taken ++ way.rest = input ∧
        ∃ front captured back captured', Matches front captured ∧
          Matches' back captured' ∧ way.taken = front ++ back ∧
          way.captures = captured' ++ captured := by
  rw [List.mem_flatMap]
  constructor
  · rintro ⟨first, member, appended⟩
    obtain ⟨splits, matched⟩ := (lists input first).mp member
    obtain ⟨back, captured, matched', splits', taken, captures⟩ :=
      (mem_append_ways lists' first way).mp appended
    refine ⟨?_, first.taken, first.captures, back, captured, matched, matched',
      taken, captures⟩
    rw [taken, List.append_assoc, splits', splits]
  · rintro ⟨splits, front, captured, back, captured', matched, matched', taken,
      captures⟩
    rw [taken, List.append_assoc] at splits
    refine ⟨⟨front, back ++ way.rest, captured⟩,
      (lists _ _).mpr ⟨splits, matched⟩, ?_⟩
    exact (mem_append_ways lists' _ way).mpr
      ⟨back, captured', matched', rfl, taken, captures⟩

theorem lists_nothing :
    Lists (fun input : List Symbol => [Way.nothing input])
      (fun s captures => s = [] ∧ captures = []) := by
  intro input way
  obtain ⟨taken, rest, captures⟩ := way
  simp only [List.mem_singleton, Way.nothing, Way.mk.injEq]
  constructor
  · rintro ⟨rfl, rfl, rfl⟩
    exact ⟨rfl, rfl, rfl⟩
  · rintro ⟨splits, rfl, rfl⟩
    exact ⟨rfl, splits, rfl⟩

theorem lists_filter {ways : List Symbol → List (Way Symbol)}
    {Matches : List Symbol → Captures Symbol → Prop}
    (lists : Lists ways Matches) :
    Lists (fun input =>
        (ways input).filter (fun way => !way.taken.isEmpty))
      (fun s captures => Matches s captures ∧ s ≠ []) := by
  intro input way
  rw [List.mem_filter, lists input way, and_assoc]
  simp

theorem lists_optionalWays {ways : List Symbol → List (Way Symbol)}
    {Matches : List Symbol → Captures Symbol → Prop}
    (lists : Lists ways Matches) (isLazy : Bool) (extra : Nat) :
    Lists (optionalWays ways isLazy extra)
      (Repeats Matches 0 (some extra)) := by
  induction extra with
  | zero =>
      intro input way
      rw [optionalWays, lists_nothing input way, repeats_zero]
  | succ extra induction =>
      intro input way
      have order : way ∈ optionalWays ways isLazy (extra + 1) input ↔
          way ∈ [Way.nothing input] ∨
          way ∈ ((ways input).filter
            (fun first => !first.taken.isEmpty)).flatMap
            (fun first => (optionalWays ways isLazy extra
              first.rest).map first.append) := by
        cases isLazy with
        | true => simp [optionalWays]
        | false => simp [optionalWays, or_comm]
      rw [order, lists_nothing input way,
        lists_flatMap (lists_filter lists) induction, repeats_optional,
        and_or_left]

theorem lists_repeatWays {ways : List Symbol → List (Way Symbol)}
    {Matches : List Symbol → Captures Symbol → Prop}
    (lists : Lists ways Matches) (isLazy : Bool) (extra min : Nat) :
    Lists (repeatWays ways isLazy extra min)
      (Repeats Matches min (some extra)) := by
  induction min with
  | zero => exact lists_optionalWays lists isLazy extra
  | succ min induction =>
      intro input way
      rw [repeatWays, lists_flatMap lists induction, repeats_required]

theorem lists_ways (regex : Regex Symbol) : Lists regex.ways regex.Matches := by
  induction regex with
  | empty => exact lists_nothing
  | one accepts =>
      intro input way
      obtain ⟨taken, rest, captures⟩ := way
      cases input with
      | nil =>
          constructor
          · intro member
            cases member
          · rintro ⟨splits, c, _, rfl, _⟩
            cases splits
      | cons c input =>
          simp only [ways, Matches]
          constructor
          · intro member
            split at member
            case isTrue accepted =>
              cases List.mem_singleton.mp member
              exact ⟨rfl, c, accepted, rfl, rfl⟩
            case isFalse => cases member
          · rintro ⟨splits, d, accepted, rfl, rfl⟩
            cases splits
            simp [accepted]
  | seq first second lists lists' => exact lists_flatMap lists lists'
  | group index body lists =>
      intro input way
      simp only [ways, Matches, List.mem_map]
      constructor
      · rintro ⟨inner, member, rfl⟩
        obtain ⟨splits, matched⟩ := (lists input inner).mp member
        exact ⟨splits, inner.captures, matched, rfl⟩
      · rintro ⟨splits, captured, matched, captures⟩
        refine ⟨⟨way.taken, way.rest, captured⟩,
          (lists input _).mpr ⟨splits, matched⟩, ?_⟩
        rw [Way.capture, ← captures]
  | repeated isLazy min max body lists =>
      intro input way
      cases max with
      | some max =>
          exact lists_repeatWays lists isLazy (max - min) min input way
      | none =>
          have bounded :=
            lists_repeatWays lists isLazy input.length min input way
          constructor
          · intro member
            obtain ⟨splits, repeats⟩ := bounded.mp member
            exact ⟨splits, repeats.unbounded⟩
          · rintro ⟨splits, repeats⟩
            have le : way.taken.length ≤ input.length := by
              rw [← splits, List.length_append]
              omega
            exact bounded.mpr ⟨splits, repeats.of_unbounded rfl le⟩

theorem fullMatch_matches {regex : Regex Symbol} {input : List Symbol}
    {captures : Captures Symbol}
    (matched : regex.fullMatch input = some captures) :
    regex.Matches input captures := by
  obtain ⟨way, found, rfl⟩ := Option.map_eq_some_iff.mp matched
  obtain ⟨splits, matches'⟩ :=
    (lists_ways regex input way).mp (List.mem_of_find?_eq_some found)
  have whole : way.rest = [] := by simpa using List.find?_some found
  rw [whole, List.append_nil] at splits
  rwa [splits] at matches'

/-- Where the input can be read in one way only, the order of the ways does
not matter. -/
theorem fullMatch_of_unique {regex : Regex Symbol} {input : List Symbol}
    {captures : Captures Symbol} (matched : regex.Matches input captures)
    (unique : ∀ other, regex.Matches input other → other = captures) :
    regex.fullMatch input = some captures := by
  have listed : (⟨input, [], captures⟩ : Way Symbol) ∈ regex.ways input :=
    (lists_ways regex input _).mpr ⟨List.append_nil _, matched⟩
  cases found : (regex.ways input).find? (fun way => way.rest.isEmpty) with
  | none =>
      have open_ := List.find?_eq_none.mp found _ listed
      simp at open_
  | some way =>
      have whole : regex.fullMatch input = some way.captures := by
        simp [fullMatch, found]
      rw [whole, unique way.captures (fullMatch_matches whole)]

theorem Repeats.class {accepts : Symbol → Bool} {min : Nat}
    {extra : Option Nat} {s : List Symbol} {captures : Captures Symbol}
    (repeats : Repeats (one accepts).Matches min extra s captures) :
    captures = [] ∧ (∀ c ∈ s, accepts c = true) ∧ min ≤ s.length ∧
      ∀ bound, extra = some bound → s.length ≤ min + bound := by
  induction repeats with
  | stop => simp
  | must matched rest induction =>
      obtain ⟨c, accepted, rfl, rfl⟩ := matched
      obtain ⟨rfl, all, least, most⟩ := induction
      refine ⟨rfl, ?_, ?_, ?_⟩
      · simpa [accepted] using all
      · simpa using least
      · intro bound bounded
        have rest := most bound bounded
        simp only [List.length_append, List.length_singleton]
        omega
  | @may extra more s rest captures later matched nonempty repeats counted
      induction =>
      obtain ⟨c, accepted, rfl, rfl⟩ := matched
      obtain ⟨rfl, all, least, most⟩ := induction
      refine ⟨rfl, ?_, ?_, ?_⟩
      · simpa [accepted] using all
      · simp
      · rintro bound rfl
        cases extra with
        | none => simp at counted
        | some less =>
            obtain rfl : bound = less + 1 := by simpa using counted
            have rest := most less rfl
            simp only [List.length_append, List.length_singleton]
            omega

theorem Repeats.of_class {accepts : Symbol → Bool} {min : Nat}
    {extra : Option Nat} {s : List Symbol}
    (all : ∀ c ∈ s, accepts c = true) (least : min ≤ s.length)
    (most : ∀ bound, extra = some bound → s.length ≤ min + bound) :
    Repeats (one accepts).Matches min extra s [] := by
  induction s generalizing min extra with
  | nil =>
      obtain rfl : min = 0 := by simpa using least
      exact .stop
  | cons c rest induction =>
      have first : (one accepts).Matches [c] [] :=
        ⟨c, all c (by simp), rfl, rfl⟩
      have others : ∀ d ∈ rest, accepts d = true :=
        fun d member => all d (List.mem_cons_of_mem c member)
      simp only [List.length_cons] at least most
      cases min with
      | succ min =>
          refine .must first (induction others (by omega) ?_)
          intro bound bounded
          have whole := most bound bounded
          omega
      | zero =>
          cases extra with
          | none =>
              exact @Repeats.may _ _ none none _ _ _ _ first (by simp)
                (induction others (by omega) (by simp)) rfl
          | some extra =>
              have whole := most extra rfl
              obtain ⟨less, rfl⟩ : ∃ less, extra = less + 1 :=
                ⟨extra - 1, by omega⟩
              refine @Repeats.may _ _ (some less) _ _ _ _ _ first (by simp)
                (induction others (by omega) ?_) rfl
              rintro bound ⟨rfl⟩
              omega

theorem repeats_one {accepts : Symbol → Bool} {min : Nat}
    {extra : Option Nat} {s : List Symbol} {captures : Captures Symbol} :
    Repeats (one accepts).Matches min extra s captures ↔
      captures = [] ∧ (∀ c ∈ s, accepts c = true) ∧ min ≤ s.length ∧
        ∀ bound, extra = some bound → s.length ≤ min + bound := by
  constructor
  · exact Repeats.class
  · rintro ⟨rfl, all, least, most⟩
    exact .of_class all least most

theorem repeated_one_matches {accepts : Symbol → Bool} {isLazy : Bool}
    {min : Nat} {max : Option Nat} {s : List Symbol}
    {captures : Captures Symbol} :
    (repeated isLazy min max (one accepts)).Matches s captures ↔
      captures = [] ∧ (∀ c ∈ s, accepts c = true) ∧ min ≤ s.length ∧
        ∀ bound, max.map (· - min) = some bound → s.length ≤ min + bound :=
  repeats_one

theorem literal_matches {same : Symbol → Symbol → Bool}
    {text s : List Symbol} {captures : Captures Symbol} :
    (literal same text).Matches s captures ↔
      captures = [] ∧ List.Forall₂ (fun c d => same c d = true) text s := by
  induction text generalizing s captures with
  | nil =>
      rw [literal, Matches, List.forall₂_nil_left_iff]
      exact and_comm
  | cons c text induction =>
      simp only [literal, Matches, induction]
      constructor
      · rintro ⟨_, _, back, _, ⟨d, accepted, rfl, rfl⟩, ⟨rfl, rest⟩, rfl, rfl⟩
        exact ⟨rfl, .cons accepted rest⟩
      · rintro ⟨rfl, whole⟩
        cases whole with
        | @cons _ d _ back accepted rest =>
            exact ⟨[d], [], back, [], ⟨d, accepted, rfl, rfl⟩, ⟨rfl, rest⟩, rfl,
              rfl⟩

theorem optional_matches {isLazy : Bool} {body : Regex Symbol}
    {s : List Symbol} {captures : Captures Symbol} :
    (repeated isLazy 0 (some 1) body).Matches s captures ↔
      (s = [] ∧ captures = []) ∨ (body.Matches s captures ∧ s ≠ []) := by
  simp only [Matches, Option.map_some, Nat.sub_zero]
  rw [repeats_optional]
  constructor
  · rintro (nothing | ⟨front, captured, back, captured', once, stop, rfl, rfl⟩)
    · exact .inl nothing
    · obtain ⟨rfl, rfl⟩ := repeats_zero.mp stop
      simpa using .inr once
  · rintro (nothing | once)
    · exact .inl nothing
    · exact .inr ⟨s, captures, [], [], once, .stop, by simp, by simp⟩

/-- What follows a run does not belong to it. -/
def Stops (accepts : Symbol → Bool) (s : List Symbol) : Prop :=
  ∀ c rest, s = c :: rest → accepts c = false

theorem run_unique {accepts : Symbol → Bool} {run run' s s' : List Symbol}
    (all : ∀ c ∈ run, accepts c = true) (all' : ∀ c ∈ run', accepts c = true)
    (stops : Stops accepts s) (stops' : Stops accepts s')
    (same : run ++ s = run' ++ s') : run = run' ∧ s = s' := by
  induction run generalizing run' with
  | nil =>
      cases run' with
      | nil => exact ⟨rfl, same⟩
      | cons c run' =>
          have accepted := all' c (by simp)
          have refused := stops c _ same
          simp [accepted] at refused
  | cons c run induction =>
      cases run' with
      | nil =>
          have accepted := all c (by simp)
          have refused := stops' c _ same.symm
          simp [accepted] at refused
      | cons d run' =>
          obtain ⟨rfl, rest⟩ := List.cons.inj same
          obtain ⟨rfl, after⟩ := induction
            (fun e member => all e (List.mem_cons_of_mem c member))
            (fun e member => all' e (List.mem_cons_of_mem c member)) rest
          exact ⟨rfl, after⟩

end Regex

end Fetchpp.Lib
