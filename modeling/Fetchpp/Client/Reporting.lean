import Fetchpp.Client.Accounting
import Fetchpp.Client.Stopping

/-!
# What a stop reports

`client_stop_sessions_op` asks the sessions for their stops one after the
other, and remembers the last error one of them reported; its handler gets
`operation_aborted` if one of the sessions it asked has failed to stop.  A fetch
that adds a session meanwhile invalidates its iterators, so that the report is
told of runs in which none does.
-/

namespace Fetchpp.Client

open Http Lib

def Work.stop? : Work → Option Nat
  | .push _ => none
  | .stop _ op => some op

/-- The operations that have asked the session to stop. -/
def Hosted.asked (hosted : Hosted) : List Nat :=
  hosted.stopped ++ hosted.queued.filterMap Work.stop?

theorem Hosted.asked_push (completed : Bool) (fetch : Fetch)
    (hosted : Hosted) :
    (hosted.dispatch completed (.push fetch)).asked = hosted.asked := by
  unfold Hosted.dispatch
  split <;> simp [Hosted.asked, Hosted.execute, Work.stop?]

theorem Hosted.asked_stop (graceful : GracefulShutdown) (op : Nat)
    (completed : Bool) (hosted : Hosted) :
    (hosted.dispatch completed (.stop graceful op)).asked =
      hosted.asked ++ [op] := by
  unfold Hosted.dispatch
  split
  case isTrue => simp [Hosted.asked, Work.stop?]
  case isFalse idle =>
    simp [Hosted.asked, Hosted.execute, Hosted.queued_of_idle idle]

theorem Hosted.asked_inner {hosted after : Hosted}
    (changed : Hosted.Change (fun _ => False) hosted after) :
    after.asked = hosted.asked := by
  cases changed with
  | dispatch completed issues => exact issues.elim
  | @work work rest queued =>
      cases work <;>
        simp [Hosted.asked, Hosted.execute, queued, List.filterMap_cons,
          Work.stop?]
  | advance => rfl

theorem Hosted.StopCalled.asked {hosted : Hosted} {op : Nat}
    {ec : Option ErrorCode} (called : hosted.StopCalled op ec) :
    op ∈ hosted.asked := by
  obtain ⟨call, _, known, _⟩ := called
  exact List.mem_append_left _ (List.mem_of_getElem? known)

theorem Hosted.StopCalled.of_calls {hosted after : Hosted} {op : Nat}
    {ec : Option ErrorCode} (called : hosted.StopCalled op ec)
    (stopped : hosted.stopped <+: after.stopped)
    (calls : hosted.session.core.stopCalls ⊆ after.session.core.stopCalls) :
    after.StopCalled op ec := by
  obtain ⟨call, member, known, same⟩ := called
  obtain ⟨more, whole⟩ := stopped
  refine ⟨call, calls member, ?_, same⟩
  rw [← whole, List.getElem?_append_left
    (List.getElem?_eq_some_iff.mp known).1]
  exact known

/-- A step that leaves an operation alone: the session is asked by it as
before, and its answer stands. -/
structure Hosted.Keeps (op : Nat) (hosted after : Hosted) : Prop where
  asked : op ∈ after.asked ↔ op ∈ hosted.asked
  called : ∀ ec, hosted.StopCalled op ec → after.StopCalled op ec

namespace Hosted.Keeps

variable {op : Nat} {hosted after : Hosted}

theorem execute (work : Work) (hosted : Hosted) {ec : Option ErrorCode}
    (called : hosted.StopCalled op ec) :
    (hosted.execute work).StopCalled op ec := by
  refine called.of_calls ?_
    (Session.step_stopCalls (hosted.execute_step work)).subset
  cases work with
  | push fetch => exact List.prefix_rfl
  | stop graceful other => exact List.prefix_append _ _

theorem dispatch (work : Work) (completed : Bool) (hosted : Hosted)
    {ec : Option ErrorCode} (called : hosted.StopCalled op ec) :
    (hosted.dispatch completed work).StopCalled op ec := by
  unfold Hosted.dispatch
  split
  · exact called
  · exact execute work hosted called

theorem inner (changed : Hosted.Change (fun _ => False) hosted after) :
    hosted.Keeps op after := by
  refine ⟨by rw [Hosted.asked_inner changed], fun ec called => ?_⟩
  cases changed with
  | dispatch completed issues => exact issues.elim
  | @work work rest queued =>
      have remaining : ({ hosted with queued := rest } : Hosted).StopCalled
          op ec := called
      exact execute work _ remaining
  | advance notPush notStart notStop stepped =>
      exact called.of_calls List.prefix_rfl
        (Session.step_stopCalls stepped).subset

theorem push (completed : Bool) (fetch : Fetch) (hosted : Hosted) :
    hosted.Keeps op (hosted.dispatch completed (.push fetch)) :=
  ⟨by rw [hosted.asked_push], fun _ called => dispatch _ _ hosted called⟩

theorem stop (graceful : GracefulShutdown) (completed : Bool)
    (hosted : Hosted) {other : Nat} (differs : op ≠ other) :
    hosted.Keeps op (hosted.dispatch completed (.stop graceful other)) :=
  ⟨by simp [hosted.asked_stop, differs],
    fun _ called => dispatch _ _ hosted called⟩

end Hosted.Keeps

def Asked (op count : Nat) (sessions : List Hosted) : Prop :=
  ∀ index hosted, sessions[index]? = some hosted →
    (op ∈ hosted.asked ↔ index < count)

/-- The first sessions have called their handlers with these errors. -/
def Reported (op : Nat) (results : List (Option ErrorCode))
    (sessions : List Hosted) : Prop :=
  ∀ (index : Nat) (ec : Option ErrorCode), results[index]? = some ec →
    ∃ hosted : Hosted, sessions[index]? = some hosted ∧
      hosted.StopCalled op ec

/-- A step that leaves an operation alone, or adds a session. -/
abbrev Kept (op : Nat) : List Hosted → List Hosted → Prop :=
  Touches (fun hosted => op ∉ hosted.asked) (Hosted.Keeps op)

theorem Asked.kept {op count : Nat} {sessions later : List Hosted}
    (asked : Asked op count sessions) (inside : count ≤ sessions.length)
    (kept : Kept op sessions later) : Asked op count later := by
  intro index hosted found
  rcases kept.getElem? found with same | ⟨before, earlier, keeps⟩ |
    ⟨last, before, unasked, keeps⟩
  · exact asked index hosted same
  · exact keeps.asked.trans (asked index before earlier)
  · have stillUnasked := mt keeps.asked.mp unasked
    exact iff_of_false stillUnasked (by omega)

theorem Reported.kept {op : Nat} {results : List (Option ErrorCode)}
    {sessions later : List Hosted} (reported : Reported op results sessions)
    (kept : Kept op sessions later) : Reported op results later := by
  intro index ec result
  obtain ⟨before, earlier, called⟩ := reported index ec result
  obtain ⟨after, found, same | keeps⟩ := kept.getElem?_of_old earlier
  · exact ⟨after, found, same ▸ called⟩
  · exact ⟨after, found, keeps.called ec called⟩

/-- What the handler of a stop gets. -/
def stopResult (results : List (Option ErrorCode)) : Option ErrorCode :=
  if results.any Option.isSome then some .operationAborted else none

/-- The operation waits for the session it has asked last. -/
structure StopOp.Walks (sessions : List Hosted) (op : StopOp) : Prop where
  current : op.begin_ < op.end_
  inside : op.end_ ≤ sessions.length
  asked : Asked op.op (op.begin_ + 1) sessions
  reports : ∃ results, results.length = op.begin_ ∧
    Reported op.op results sessions ∧
    op.ec_.isSome = results.any Option.isSome

/-- The operation has asked so many sessions and ended with this error. -/
structure Ended (op count : Nat) (ec : Option ErrorCode)
    (sessions : List Hosted) : Prop where
  inside : count ≤ sessions.length
  asked : Asked op count sessions
  reports : ∃ results, results.length = count ∧
    Reported op results sessions ∧ ec = stopResult results

theorem StopOp.Walks.kept {sessions later : List Hosted} {op : StopOp}
    (walks : op.Walks sessions) (kept : Kept op.op sessions later) :
    op.Walks later := by
  have inside := walks.inside
  have current := walks.current
  obtain ⟨results, length, reported, failed⟩ := walks.reports
  exact
    { current := current
      inside := Nat.le_trans inside kept.length_le
      asked := walks.asked.kept (by omega) kept
      reports := ⟨results, length, reported.kept kept, failed⟩ }

theorem Ended.kept {op count : Nat} {ec : Option ErrorCode}
    {sessions later : List Hosted} (ended : Ended op count ec sessions)
    (kept : Kept op sessions later) : Ended op count ec later := by
  obtain ⟨results, length, reported, result⟩ := ended.reports
  exact
    { inside := Nat.le_trans ended.inside kept.length_le
      asked := ended.asked.kept ended.inside kept
      reports := ⟨results, length, reported.kept kept, result⟩ }

/-- The head of the loop ends the operation, or asks the current session. -/
inductive StopOp.Looped (op : StopOp) (completed : Bool)
    (ec : Option ErrorCode) (s : State) : State → Prop where
  | ends (uses : Nat) :
      op.begin_ = op.end_ →
      Looped op completed ec s { s with
        danglingUses := uses
        stopPosts := s.stopPosts ++ [(op.op,
          if op.ec_.isSome then some .operationAborted else ec)] }
  | asks (uses : Nat) (hosted : Hosted) :
      op.begin_ ≠ op.end_ →
      s.sessions[op.begin_]? = some hosted →
      Looped op completed ec s { s with
        danglingUses := uses
        stopping := s.stopping ++ [op]
        sessions := s.sessions.set op.begin_
          (hosted.dispatch completed (.stop op.graceful op.op)) }

theorem StopOp.loop_cases {op : StopOp} {s : State}
    (inside : op.begin_ ≠ op.end_ → op.begin_ < s.sessions.length)
    (completed : Bool) (ec : Option ErrorCode) :
    op.Looped completed ec s (op.loop completed ec s) := by
  by_cases last : op.begin_ = op.end_
  · simp only [loop, last, ne_eq, not_true, if_false]
    exact .ends _ last
  · have found : s.sessions[op.begin_]? = some s.sessions[op.begin_] :=
      List.getElem?_eq_getElem (inside last)
    simp only [loop, ne_eq, last, not_false_eq_true, if_true,
      List.modify_eq_set_getElem?, found, Option.map_eq_map, Option.map_some,
      Option.getD_some]
    exact .asks _ _ last found

def State.stopNumbers (s : State) : List Nat :=
  s.stopping.map StopOp.op ++ s.stopPosts.map Prod.fst ++
    s.stopCalls.map StopCall.op

theorem StopOp.loop_stopNumbers (op : StopOp) (completed : Bool)
    (ec : Option ErrorCode) (s : State) :
    (op.loop completed ec s).stopNumbers.Perm (op.op :: s.stopNumbers) := by
  rw [List.perm_iff_count]
  intro number
  simp only [loop]
  split <;>
    simp only [State.stopNumbers, List.map_append, List.map_cons,
      List.map_nil, List.count_append, List.count_cons, List.count_nil] <;>
    omega

theorem State.Stepped.stopNumbers {rules : UrlRules} {s t : State}
    {event : Event} (stepped : s.Stepped rules event t)
    (numbers : s.stopNumbers.Perm (List.range s.stops)) :
    t.stopNumbers.Perm (List.range t.stops) := by
  cases stepped with
  | fetch fetched => cases fetched <;> exact numbers
  | update update => exact numbers
  | stop graceful completed =>
      have looped := StopOp.loop_stopNumbers
        ⟨s.stops, graceful, 0, s.sessions.length, none⟩ completed none
        { s with stops := s.stops + 1 }
      have counted : (s.stop graceful completed).stops = s.stops + 1 := by
        simp only [State.stop, StopOp.loop]
        split <;> rfl
      rw [counted, List.range_succ]
      refine looped.trans ((numbers.cons _).trans ?_)
      exact (List.perm_append_singleton _ _).symm
  | @stopResumed op ec hosted completed member found called =>
      have counted : (op.resume completed ec s).stops = s.stops := by
        simp only [StopOp.resume, StopOp.loop]
        split <;> rfl
      rw [counted]
      refine (StopOp.loop_stopNumbers _ completed ec _).trans ?_
      refine List.Perm.trans ?_ numbers
      have split := (List.perm_cons_erase member).map StopOp.op
      exact ((split.append_right _).append_right _).symm
  | @stopCalled op ec posted =>
      refine List.Perm.trans ?_ numbers
      have split := (List.perm_cons_erase posted).map Prod.fst
      rw [List.perm_iff_count] at split ⊢
      intro number
      have same := split number
      simp only [State.stopNumbers, State.callStop, List.map_append,
        List.map_cons, List.map_nil, List.count_append, List.count_cons,
        List.count_nil] at same ⊢
      omega
  | inner isInner found changed => exact numbers

theorem reached_stopNumbers {rules : UrlRules} {maxPending : Nat} {s : State}
    (reached : (machine rules maxPending).Reached s) :
    s.stopNumbers.Perm (List.range s.stops) := by
  induction reached with
  | start => exact .rfl
  | step _ _ stepped numbers =>
      exact (stepped_cases stepped).stopNumbers numbers

/-- The loops of all stops; `sizes` tells how many sessions there were when a
stop was called. -/
structure State.Walking (sizes : Nat → Nat) (s : State) : Prop where
  known : ∀ hosted ∈ s.sessions, ∀ op ∈ hosted.asked, op < s.stops
  once : ∀ hosted ∈ s.sessions, hosted.asked.Nodup
  ends : ∀ op ∈ s.stopping, op.end_ = sizes op.op
  stopping : ∀ op ∈ s.stopping, op.Walks s.sessions
  posts : ∀ post ∈ s.stopPosts,
    Ended post.1 (sizes post.1) post.2 s.sessions
  calls : ∀ call ∈ s.stopCalls,
    Ended call.op (sizes call.op) call.ec s.sessions

theorem State.mem_stopNumbers {s : State} {op : Nat} :
    op ∈ s.stopNumbers ↔ (∃ walk ∈ s.stopping, walk.op = op) ∨
      (∃ post ∈ s.stopPosts, post.1 = op) ∨
      ∃ call ∈ s.stopCalls, call.op = op := by
  simp only [stopNumbers, List.mem_append, List.mem_map, or_assoc]

namespace State.Walking

variable {sizes : Nat → Nat}

theorem kept {s t : State} (walking : s.Walking sizes)
    (known : ∀ hosted ∈ t.sessions, ∀ op ∈ hosted.asked, op < t.stops)
    (once : ∀ hosted ∈ t.sessions, hosted.asked.Nodup)
    (kept : ∀ op ∈ s.stopNumbers, Kept op s.sessions t.sessions)
    (stopping : t.stopping = s.stopping) (posts : t.stopPosts = s.stopPosts)
    (calls : t.stopCalls = s.stopCalls) : t.Walking sizes where
  known := known
  once := once
  ends := stopping ▸ walking.ends
  stopping := by
    rw [stopping]
    exact fun op member => (walking.stopping op member).kept
      (kept op.op (State.mem_stopNumbers.mpr (.inl ⟨op, member, rfl⟩)))
  posts := by
    rw [posts]
    exact fun post member => (walking.posts post member).kept
      (kept post.1
        (State.mem_stopNumbers.mpr (.inr (.inl ⟨post, member, rfl⟩))))
  calls := by
    rw [calls]
    exact fun call member => (walking.calls call member).kept
      (kept call.op
        (State.mem_stopNumbers.mpr (.inr (.inr ⟨call, member, rfl⟩))))

theorem resize {s : State} (walking : s.Walking sizes) {later : Nat → Nat}
    (numbers : s.stopNumbers.Perm (List.range s.stops))
    (same : ∀ op < s.stops, later op = sizes op) : s.Walking later where
  known := walking.known
  once := walking.once
  ends := by
    intro op member
    have known := numbers.mem_iff.mp
      (State.mem_stopNumbers.mpr (.inl ⟨op, member, rfl⟩))
    rw [same op.op (List.mem_range.mp known)]
    exact walking.ends op member
  stopping := walking.stopping
  posts := by
    intro post member
    have known := numbers.mem_iff.mp
      (State.mem_stopNumbers.mpr (.inr (.inl ⟨post, member, rfl⟩)))
    rw [same post.1 (List.mem_range.mp known)]
    exact walking.posts post member
  calls := by
    intro call member
    have known := numbers.mem_iff.mp
      (State.mem_stopNumbers.mpr (.inr (.inr ⟨call, member, rfl⟩)))
    rw [same call.op (List.mem_range.mp known)]
    exact walking.calls call member

theorem unasked {s t : State} {Issues : Work → Prop}
    (walking : s.Walking sizes)
    (pushes : ∀ work, Issues work → work.stop? = none)
    (touches : Touches Hosted.Fresh (Hosted.Change Issues) s.sessions
      t.sessions)
    (stops : t.stops = s.stops) (stopping : t.stopping = s.stopping)
    (posts : t.stopPosts = s.stopPosts) (calls : t.stopCalls = s.stopCalls) :
    t.Walking sizes := by
  have change : ∀ before after, Hosted.Change Issues before after →
      after.asked = before.asked ∧ ∀ op, before.Keeps op after := by
    intro before after changed
    cases changed with
    | @dispatch work completed issues =>
        cases work with
        | push fetch => exact ⟨before.asked_push completed fetch,
            fun op => .push completed fetch before⟩
        | stop graceful op => cases pushes _ issues
    | work queued =>
        exact ⟨Hosted.asked_inner (.work queued), fun op =>
          .inner (.work queued)⟩
    | advance notPush notStart notStop stepped =>
        exact ⟨rfl, fun op => .inner (.advance notPush notStart notStop
          stepped)⟩
  have fresh : ∀ hosted : Hosted, hosted.Fresh → hosted.asked = [] := by
    rintro hosted ⟨endpoint, rfl⟩
    rfl
  refine walking.kept ?_ ?_ ?_ stopping posts calls
  · rw [stops]
    refine touches.all walking.known ?_ ?_
    · intro hosted isNew
      simp [fresh hosted isNew]
    · intro before after changed holds
      rw [(change before after changed).1]
      exact holds
  · refine touches.all walking.once ?_ ?_
    · intro hosted isNew
      simp [fresh hosted isNew]
    · intro before after changed holds
      rw [(change before after changed).1]
      exact holds
  · intro op _
    refine touches.mono ?_ fun before after changed =>
      (change before after changed).2 op
    intro hosted isNew
    simp [fresh hosted isNew]

theorem ask {s : State} (walking : s.Walking sizes) {op index : Nat}
    (fresh : op ∉ s.stopNumbers) (number : op < s.stops) {hosted : Hosted}
    (found : s.sessions[index]? = some hosted) (unasked : op ∉ hosted.asked)
    (graceful : GracefulShutdown) (completed : Bool) (uses : Nat) :
    ({ s with
      danglingUses := uses
      sessions := s.sessions.set index
        (hosted.dispatch completed (.stop graceful op)) } : State).Walking
      sizes := by
  have member := List.mem_of_getElem? found
  have askedNow := hosted.asked_stop graceful op completed
  refine walking.kept ?_ ?_ ?_ rfl rfl rfl
  · intro other inLater
    rcases List.mem_or_eq_of_mem_set inLater with kept | changed
    · exact walking.known other kept
    · rw [changed, askedNow]
      intro earlier inAsked
      rcases List.mem_append.mp inAsked with before | single
      · exact walking.known hosted member earlier before
      · rwa [List.mem_singleton.mp single]
  · intro other inLater
    rcases List.mem_or_eq_of_mem_set inLater with kept | changed
    · exact walking.once other kept
    · rw [changed, askedNow]
      refine List.nodup_append.mpr ⟨walking.once hosted member, by simp, ?_⟩
      rintro earlier inAsked last single rfl
      rw [List.mem_singleton.mp single] at inAsked
      exact unasked inAsked
  · intro other known
    have differs : other ≠ op := fun same => fresh (same ▸ known)
    exact .one found (.stop graceful completed hosted differs)

/-- The head of the loop: the sessions before the current one have answered,
and the operation has not asked the others. -/
theorem loop {s : State} (walking : s.Walking sizes) {op : StopOp}
    (size : op.end_ = sizes op.op)
    (fresh : op.op ∉ s.stopNumbers) (number : op.op < s.stops)
    (current : op.begin_ ≤ op.end_) (inside : op.end_ ≤ s.sessions.length)
    (asked : Asked op.op op.begin_ s.sessions)
    {results : List (Option ErrorCode)} (length : results.length = op.begin_)
    (reported : Reported op.op results s.sessions)
    (failed : op.ec_.isSome = results.any Option.isSome)
    {ec : Option ErrorCode} (last : ec.isSome = true → op.ec_.isSome = true)
    (completed : Bool) : (op.loop completed ec s).Walking sizes := by
  have looped : op.Looped completed ec s (op.loop completed ec s) :=
    StopOp.loop_cases (by omega) completed ec
  generalize op.loop completed ec s = after at looped ⊢
  cases looped with
  | ends uses same =>
      refine ⟨walking.known, walking.once, walking.ends, walking.stopping, ?_,
        walking.calls⟩
      intro post member
      rcases List.mem_append.mp member with earlier | new
      · exact walking.posts post earlier
      · rw [List.mem_singleton.mp new]
        have all : sizes op.op = op.begin_ := by omega
        have within : sizes op.op ≤ s.sessions.length := by omega
        refine ⟨within, all ▸ asked, results, length.trans all.symm, reported,
          ?_⟩
        simp only [stopResult, ← failed]
        split
        · rfl
        · rename_i succeeded
          exact Option.not_isSome_iff_eq_none.mp (mt last succeeded)
  | asks uses hosted more found =>
      have inDeque := (List.getElem?_eq_some_iff.mp found).1
      have unasked : op.op ∉ hosted.asked := fun already =>
        Nat.lt_irrefl _ ((asked op.begin_ hosted found).mp already)
      have others := walking.ask fresh number found unasked op.graceful
        completed uses
      have askedNow : Asked op.op (op.begin_ + 1) (s.sessions.set op.begin_
          (hosted.dispatch completed (.stop op.graceful op.op))) := by
        intro index other at_
        by_cases here : op.begin_ = index
        · subst here
          rw [List.getElem?_set_self inDeque] at at_
          cases at_
          exact iff_of_true (by simp [hosted.asked_stop]) (Nat.lt_succ_self _)
        · rw [List.getElem?_set_ne here] at at_
          rw [asked index other at_]
          omega
      have stillReported : Reported op.op results (s.sessions.set op.begin_
          (hosted.dispatch completed (.stop op.graceful op.op))) := by
        intro index result known
        obtain ⟨other, at_, called⟩ := reported index result known
        have earlier := (List.getElem?_eq_some_iff.mp known).1
        refine ⟨other, ?_, called⟩
        rw [List.getElem?_set_ne (by omega)]
        exact at_
      refine ⟨others.known, others.once, ?_, ?_, others.posts, others.calls⟩
      · intro other inStopping
        rcases List.mem_append.mp inStopping with earlier | new
        · exact walking.ends other earlier
        · rw [List.mem_singleton.mp new]
          exact size
      intro other inStopping
      rcases List.mem_append.mp inStopping with earlier | new
      · exact others.stopping other earlier
      · rw [List.mem_singleton.mp new]
        exact ⟨by omega, by simpa using inside, askedNow, results, length,
          stillReported, failed⟩

theorem stop {s : State} (walking : s.Walking sizes)
    (size : sizes s.stops = s.sessions.length)
    (numbers : s.stopNumbers.Perm (List.range s.stops))
    (graceful : GracefulShutdown) (completed : Bool) :
    (s.stop graceful completed).Walking sizes := by
  have counted : ({ s with stops := s.stops + 1 } : State).Walking sizes :=
    ⟨fun hosted member op asked =>
      Nat.lt_succ_of_lt (walking.known hosted member op asked),
      walking.once, walking.ends, walking.stopping, walking.posts,
      walking.calls⟩
  refine @loop _ _ counted ⟨s.stops, graceful, 0, s.sessions.length, none⟩
    size.symm ?_ (Nat.lt_succ_self _) (Nat.zero_le _) (Nat.le_refl _) ?_ [] rfl
    ?_ rfl none (by simp) completed
  · intro known
    have below := numbers.mem_iff.mp known
    exact Nat.lt_irrefl _ (List.mem_range.mp below)
  · intro index hosted found
    refine iff_of_false ?_ (Nat.not_lt_zero _)
    intro asked
    exact Nat.lt_irrefl _
      (walking.known hosted (List.mem_of_getElem? found) _ asked)
  · intro index ec result
    simp at result

theorem resume {s : State} (walking : s.Walking sizes)
    (numbers : s.stopNumbers.Perm (List.range s.stops)) {op : StopOp}
    (member : op ∈ s.stopping) {hosted : Hosted}
    (found : s.sessions[op.begin_]? = some hosted) {ec : Option ErrorCode}
    (called : hosted.StopCalled op.op ec) (completed : Bool) :
    (op.resume completed ec s).Walking sizes := by
  have walks := walking.stopping op member
  have current := walks.current
  obtain ⟨results, length, reported, failed⟩ := walks.reports
  have rest : ({ s with stopping := s.stopping.erase op } : State).Walking
      sizes :=
    ⟨walking.known, walking.once,
      fun other inRest => walking.ends other (List.mem_of_mem_erase inRest),
      fun other inRest => walking.stopping other (List.mem_of_mem_erase inRest),
      walking.posts, walking.calls⟩
  have split : s.stopNumbers.Perm (op.op ::
      ({ s with stopping := s.stopping.erase op } : State).stopNumbers) :=
    (((List.perm_cons_erase member).map StopOp.op).append_right _).append_right
      _
  have nodup := (split.symm.trans numbers).nodup_iff.mpr List.nodup_range
  have known := (split.symm.trans numbers).mem_iff.mp List.mem_cons_self
  refine @loop _ _ rest
    { op with
      begin_ := op.begin_ + 1
      ec_ := if ec.isSome then ec else op.ec_ }
    (walking.ends op member) (List.nodup_cons.mp nodup).1 (List.mem_range.mp known)
    (Nat.succ_le_of_lt current) walks.inside walks.asked (results ++ [ec])
    (by simp [length]) ?_ ?_ ec ?_ completed
  · intro index result at_
    by_cases earlier : index < results.length
    · rw [List.getElem?_append_left earlier] at at_
      exact reported index result at_
    · have last := (List.getElem?_eq_some_iff.mp at_).1
      have here : index = results.length := by
        simp only [List.length_append, List.length_singleton] at last
        omega
      subst here
      rw [List.getElem?_concat_length] at at_
      cases at_
      exact ⟨hosted, length ▸ found, called⟩
  · cases ec <;> simp [failed]
  · intro failure
    simp [failure]

end State.Walking

theorem State.Fetched.touches {rules : UrlRules} {uri : Url}
    {completed : Bool} {s t : State}
    (fetched : s.Fetched rules uri completed t) :
    Touches Hosted.Fresh (Hosted.Change (fun work => work.stop? = none))
      s.sessions t.sessions := by
  cases fetched with
  | escaped => exact .none _
  | known proxy index hosted _ _ _ found =>
      exact .one found (.dispatch completed rfl)
  | created proxy endpoint =>
      have created : Hosted.Change (fun work => work.stop? = none)
          { endpoint := endpoint }
          (Hosted.dispatch false (.push ⟨s.fetches, uri, proxy⟩)
            { endpoint := endpoint }) := .dispatch false rfl
      exact .new ⟨endpoint, rfl⟩ created

theorem State.Stepped.walking {rules : UrlRules} {sizes : Nat → Nat}
    {s t : State} {event : Event} (stepped : s.Stepped rules event t)
    (walking : s.Walking sizes)
    (size : (∃ graceful completed, event = .stop graceful completed) →
      sizes s.stops = s.sessions.length)
    (numbers : s.stopNumbers.Perm (List.range s.stops)) : t.Walking sizes := by
  cases stepped with
  | fetch fetched =>
      have touches := fetched.touches
      cases fetched <;>
        exact walking.unasked (fun _ push => push) touches rfl rfl rfl rfl
  | update update =>
      exact ⟨walking.known, walking.once, walking.ends, walking.stopping,
        walking.posts, walking.calls⟩
  | stop graceful completed =>
      exact walking.stop (size ⟨_, _, rfl⟩) numbers graceful completed
  | stopResumed completed member found called =>
      exact walking.resume numbers member found called completed
  | stopCalled posted =>
      refine ⟨walking.known, walking.once, walking.ends, walking.stopping, ?_,
        ?_⟩
      · exact fun post inRest =>
          walking.posts post (List.mem_of_mem_erase inRest)
      · intro call member
        rcases List.mem_append.mp member with earlier | new
        · exact walking.calls call earlier
        · rw [List.mem_singleton.mp new]
          exact walking.posts _ posted
  | inner isInner found changed =>
      exact walking.unasked (fun work issues => issues.elim)
        (.one found changed) rfl rfl rfl rfl

theorem State.Stepped.stops {rules : UrlRules} {s t : State} {event : Event}
    (stepped : s.Stepped rules event t) : s.stops ≤ t.stops := by
  cases stepped with
  | fetch fetched => cases fetched <;> exact Nat.le_refl _
  | update update => exact Nat.le_refl _
  | stop graceful completed =>
      simp only [State.stop, StopOp.loop]
      split <;> exact Nat.le_succ _
  | stopResumed completed member found called =>
      simp only [StopOp.resume, StopOp.loop]
      split <;> exact Nat.le_refl _
  | stopCalled posted => exact Nat.le_refl _
  | inner isInner found changed => exact Nat.le_refl _

variable {rules : UrlRules} {maxPending : Nat}

theorem step_walking {sizes : Nat → Nat} {s t : State} {event : Event}
    (walking : s.Walking sizes)
    (numbers : s.stopNumbers.Perm (List.range s.stops))
    (stepped : (machine rules maxPending).step s event = some t) :
    ∃ later : Nat → Nat, (∀ op < s.stops, later op = sizes op) ∧
      later s.stops = s.sessions.length ∧ t.Walking later := by
  let later := fun op => if op < s.stops then sizes op else s.sessions.length
  have same : ∀ op < s.stops, later op = sizes op :=
    fun op known => if_pos known
  have size : later s.stops = s.sessions.length :=
    if_neg (Nat.lt_irrefl _)
  have told : s.Stepped rules event t := stepped_cases stepped
  exact ⟨later, same, size,
    told.walking (walking.resize numbers same) (fun _ => size) numbers⟩

theorem reached_walking {s : State}
    (reached : (machine rules maxPending).Reached s) :
    ∃ sizes, s.Walking sizes := by
  induction reached with
  | start => exact ⟨fun _ => 0, by constructor <;> simp [machine]⟩
  | step earlier _ stepped walking =>
      obtain ⟨sizes, walking⟩ := walking
      obtain ⟨later, _, _, walks⟩ :=
        step_walking walking (reached_stopNumbers earlier) stepped
      exact ⟨later, walks⟩

theorem run_walking {sizes : Nat → Nat} {s t : State} {events : List Event}
    (reached : (machine rules maxPending).Reached s)
    (walking : s.Walking sizes)
    (ran : (machine rules maxPending).run s events = some t) :
    ∃ later : Nat → Nat, s.stops ≤ t.stops ∧
      (∀ op < s.stops, later op = sizes op) ∧ t.Walking later := by
  have kept := @Machine.ReachedBy.run_invariant _ _ (machine rules maxPending)
    (fun t => ∃ later : Nat → Nat, s.stops ≤ t.stops ∧
      (∀ op < s.stops, later op = sizes op) ∧ t.Walking later)
  refine kept ?_ reached ⟨sizes, Nat.le_refl _, fun _ _ => rfl, walking⟩ ran
  rintro before event after reached ⟨later, more, same, walks⟩ stepped
  obtain ⟨further, kept, _, still⟩ :=
    step_walking walks (reached_stopNumbers reached) stepped
  have told : before.Stepped rules event after := stepped_cases stepped
  refine ⟨further, Nat.le_trans more told.stops, fun op known => ?_, still⟩
  rw [kept op (Nat.lt_of_lt_of_le known more), same op known]

theorem Hosted.StopCalled.unique {hosted : Hosted} {op : Nat}
    {first second : Option ErrorCode} (once : hosted.asked.Nodup)
    (reached : Session.machine.Reached hosted.session)
    (left : hosted.StopCalled op first) (right : hosted.StopCalled op second) :
    first = second := by
  obtain ⟨call, inCalls, known, rfl⟩ := left
  obtain ⟨other, otherInCalls, otherKnown, rfl⟩ := right
  have calls := Session.reached_stopCalls_nodup reached
  have nodup := (List.nodup_append.mp once).1
  have inside := (List.getElem?_eq_some_iff.mp known).1
  have same : call.1 = other.1 :=
    (List.getElem?_inj inside nodup).mp (known.trans otherKnown.symm)
  rw [List.inj_on_of_nodup_map calls inCalls otherInCalls same]

/-- What the call of the handler of a stop tells: `count` sessions were asked,
each of them has answered, and it is told whether one of them failed. -/
structure State.StopReported (count : Nat) (call : StopCall) (s : State) :
    Prop where
  asked : Asked call.op count s.sessions
  result : ∃ results, results.length = count ∧
    (∀ (index : Nat) (hosted : Hosted), s.sessions[index]? = some hosted →
      ∀ ec, hosted.StopCalled call.op ec ↔ results[index]? = some ec) ∧
    call.ec = stopResult results

/-- As long as no fetch creates a session during a stop, the handler of an
`async_stop` is called when all sessions there were at the time of the call have
answered; it gets `operation_aborted` exactly if one of them has failed to stop.
-/
theorem run_stopReported {s t : State} {graceful : GracefulShutdown}
    {completed : Bool} {events : List Event} {call : StopCall}
    (steady : (machine rules maxPending).ReachedBy
      (fun before event => event.Steady rules before) s)
    (executed : (machine rules maxPending).runWhere
      (fun before event => event.Steady rules before) s
      (.stop graceful completed :: events) = some t)
    (member : call ∈ t.stopCalls) (number : call.op = s.stops) :
    t.StopReported s.sessions.length call := by
  have reached := steady.reached
  have ran := Machine.run_of_runWhere executed
  obtain ⟨sizes, walking⟩ := reached_walking reached
  have stepped : (machine rules maxPending).step s (.stop graceful completed) =
      some (s.stop graceful completed) := rfl
  obtain ⟨sizes', _, size, walks⟩ :=
    step_walking walking (reached_stopNumbers reached) stepped
  have begun : (machine rules maxPending).Reached
      (s.stop graceful completed) := reached.step trivial stepped
  have counted : (s.stop graceful completed).stops = s.stops + 1 := by
    simp only [State.stop, StopOp.loop]
    split <;> rfl
  obtain ⟨later, _, kept, ends⟩ := run_walking begun walks ran
  have ended := ends.calls call member
  rw [number, kept s.stops (by omega), size] at ended
  have reachedEnd := begun.append_run ran
  obtain ⟨results, length, reported, result⟩ := ended.reports
  rw [← number] at ended reported
  refine ⟨ended.asked, results, length, ?_, result⟩
  intro index hosted found ec
  have inDeque := List.mem_of_getElem? found
  constructor
  · intro called
    have inside := (ended.asked index hosted found).mp called.asked
    obtain ⟨heard, known⟩ : ∃ heard, results[index]? = some heard :=
      ⟨_, List.getElem?_eq_getElem (by omega)⟩
    obtain ⟨same, at_, recorded⟩ := reported index _ known
    rw [found] at at_
    cases at_
    rw [known, called.unique (ends.once hosted inDeque)
      (reached_runs reachedEnd hosted inDeque).reached.reached recorded]
  · intro known
    obtain ⟨same, at_, recorded⟩ := reported index ec known
    rw [found] at at_
    cases at_
    exact recorded

/-- Two sessions of which the first does not stop in time; a third one is
created after the call of the handler. -/
def timedOutRun : List Event :=
  [.work 0, .resume 0 (.close .yes (.stop 0)) none false,
    .resume 0 (.wait 0 false) none false,
    .stopResumed ⟨0, .yes, 0, 2, none⟩ (some .timedOut) false,
    .work 1, .post 1 .processTask false, .post 1 .advanceTask false,
    .resume 1 (.close .yes (.stop 0)) none false,
    .stopResumed ⟨0, .yes, 1, 2, some .timedOut⟩ none false,
    .stopCalled 0 (some .operationAborted),
    .fetch remoteUrl false]

theorem stopReported_of_timedOutRun :
    ∃ t : State, t.sessions.length = 3 ∧
      t.StopReported 2 ⟨0, some .operationAborted, 0⟩ := by
  have ready : ((machine specialRules 1).runWhere
      (fun before event => event.Steady specialRules before)
      (machine specialRules 1).start
      [.fetch localUrl false, .fetch localUrl false]).map
        (fun s => (s.stops, s.sessions.length)) = some (0, 2) := by
    decide +kernel
  have executed : (((machine specialRules 1).runWhere
      (fun before event => event.Steady specialRules before)
      (machine specialRules 1).start
      [.fetch localUrl false, .fetch localUrl false]).bind (fun s =>
        (machine specialRules 1).runWhere
          (fun before event => event.Steady specialRules before) s
          (.stop .yes false :: timedOutRun))).map
          (fun t => (t.sessions.length, t.stopCalls)) =
      some (3, [⟨0, some .operationAborted, 0⟩]) := by
    decide +kernel
  obtain ⟨s, begun, facts⟩ := Option.map_eq_some_iff.mp ready
  obtain ⟨stops, two⟩ := Prod.mk.inj facts
  rw [begun, Option.bind_some] at executed
  obtain ⟨t, ran, facts⟩ := Option.map_eq_some_iff.mp executed
  obtain ⟨three, calls⟩ := Prod.mk.inj facts
  have called : (⟨0, some .operationAborted, 0⟩ : StopCall) ∈ t.stopCalls := by
    simp [calls]
  have reported := run_stopReported (Machine.reachedBy_of_runWhere _ begun) ran
    called stops.symm
  rw [two] at reported
  exact ⟨t, three, reported⟩

end Fetchpp.Client
