import Fetchpp.Client.Hosting

/-!
# Proxies seen by a fetch

`add_proxy` and `set_proxies` post on the client's strand, `async_fetch`
dispatches to it.  From outside both are queued in the order of the calls; from
a handler that runs on the strand the update is queued and the fetch runs at
once.  Each job remembers the map that the updates called up to then make, so
that what a fetch uses can be compared with what its caller has asked for.
-/

namespace Fetchpp.Client

open Http Lib

inductive Call where
  /-- `add_proxy` or `set_proxies` -/
  | update (update : Update)
  /-- `async_fetch` -/
  | fetch (uri : Url) (completed : Bool)
  deriving DecidableEq, Repr

def Call.apply : Call → ProxyMap → ProxyMap
  | .update change, proxies => change.apply proxies
  | .fetch _ _, proxies => proxies

/-- A job on the client's strand; `issued` is the map after all updates that
were called before it, and after its own. -/
structure Job where
  call : Call
  issued : ProxyMap

/-- The map a fetch selects its proxy from, and the map its caller has asked
for. -/
structure Selection where
  used : ProxyMap
  issued : ProxyMap
  deriving DecidableEq, Repr

/-- The client's strand and the jobs queued on it. -/
structure Strand where
  client : State := {}
  queue : List Job := []
  issued : ProxyMap := {}
  selections : List Selection := []

namespace Strand

def perform (rules : UrlRules) (job : Job) (s : Strand) : Strand :=
  match job.call with
  | .update update =>
      { s with client :=
          { s.client with proxies := update.apply s.client.proxies } }
  | .fetch uri completed =>
      { s with
        client := s.client.fetch rules uri completed
        selections := s.selections ++ [⟨s.client.proxies, job.issued⟩] }

/-- A call is made, on the strand if `inside`: `post` queues in any case,
`dispatch` only from outside. -/
def call (rules : UrlRules) (inside : Bool) (call : Call) (s : Strand) :
    Strand :=
  let issued := call.apply s.issued
  let s := { s with issued := issued }
  match inside, call with
  | true, .fetch _ _ => s.perform rules ⟨call, issued⟩
  | _, _ => { s with queue := s.queue ++ [⟨call, issued⟩] }

end Strand

inductive StrandEvent where
  | call (inside : Bool) (call : Call)
  /-- the first job of the queue -/
  | run
  /-- another handler -/
  | other (event : Event)
  deriving DecidableEq, Repr

def Event.isOther : Event → Bool
  | .fetch _ _ => false
  | .update _ => false
  | _ => true

def strandStep (rules : UrlRules) (s : Strand) : StrandEvent → Option Strand
  | .call inside call => some (s.call rules inside call)
  | .run =>
      match s.queue with
      | [] => none
      | job :: rest => some ({ s with queue := rest }.perform rules job)
  | .other event =>
      if event.isOther then
        (step rules s.client event).map fun client =>
          { s with client := client }
      else none

def strandMachine (rules : UrlRules) (maxPending : Nat) :
    Machine Strand StrandEvent where
  start :=
    { client := (machine rules maxPending).start
      issued := (machine rules maxPending).start.proxies }
  step := strandStep rules

/-- The map after the jobs that are queued. -/
def Strand.settled (s : Strand) : ProxyMap :=
  s.queue.foldl (fun proxies job => job.call.apply proxies) s.client.proxies

/-- A fetch that runs at once overtakes no update that changes the map. -/
def StrandEvent.Settled (s : Strand) : StrandEvent → Prop
  | .call true (.fetch _ _) => s.settled = s.client.proxies
  | _ => True

instance (s : Strand) : (event : StrandEvent) → Decidable (event.Settled s)
  | .call true (.fetch _ _) =>
      inferInstanceAs (Decidable (s.settled = s.client.proxies))
  | .call true (.update _) | .call false _ | .run | .other _ =>
      inferInstanceAs (Decidable True)

/-- Run in order, each job finds the map its caller has asked for. -/
def Agrees (issued : ProxyMap) : ProxyMap → List Job → Prop
  | proxies, [] => proxies = issued
  | proxies, job :: rest =>
      job.issued = job.call.apply proxies ∧
        Agrees issued (job.call.apply proxies) rest

theorem Agrees.append {issued proxies : ProxyMap} {queue : List Job}
    (agrees : Agrees issued proxies queue) (call : Call) :
    Agrees (call.apply issued) proxies
      (queue ++ [⟨call, call.apply issued⟩]) := by
  induction queue generalizing proxies with
  | nil =>
      have same : proxies = issued := agrees
      subst same
      exact ⟨rfl, rfl⟩
  | cons job rest induction => exact ⟨agrees.1, induction agrees.2⟩

theorem Agrees.settled {issued proxies : ProxyMap} {queue : List Job}
    (agrees : Agrees issued proxies queue) :
    queue.foldl (fun proxies job => job.call.apply proxies) proxies =
      issued := by
  induction queue generalizing proxies with
  | nil => exact agrees
  | cons job rest induction => exact induction agrees.2

theorem State.fetch_proxies (rules : UrlRules) (uri : Url) (completed : Bool)
    (s : State) : (s.fetch rules uri completed).proxies = s.proxies := by
  have fetched := s.fetch_cases rules uri completed
  generalize s.fetch rules uri completed = after at fetched ⊢
  cases fetched <;> rfl

theorem Strand.perform_proxies (rules : UrlRules) (job : Job) (s : Strand) :
    (s.perform rules job).client.proxies =
      job.call.apply s.client.proxies := by
  obtain ⟨call, issued⟩ := job
  cases call with
  | update update => rfl
  | fetch uri completed => exact s.client.fetch_proxies rules uri completed

@[simp] theorem Strand.perform_queue (rules : UrlRules) (job : Job)
    (s : Strand) : (s.perform rules job).queue = s.queue := by
  obtain ⟨call, issued⟩ := job
  cases call <;> rfl

@[simp] theorem Strand.perform_issued (rules : UrlRules) (job : Job)
    (s : Strand) : (s.perform rules job).issued = s.issued := by
  obtain ⟨call, issued⟩ := job
  cases call <;> rfl

/-- In every run the queue agrees with what was asked for. -/
theorem reached_agrees {rules : UrlRules} {maxPending : Nat} {s : Strand}
    (reached : (strandMachine rules maxPending).Reached s) :
    Agrees s.issued s.client.proxies s.queue := by
  induction reached with
  | start => exact rfl
  | @step before after event _ _ stepped agrees =>
      cases event with
      | call inside call =>
          cases stepped
          cases call with
          | update update =>
              cases inside <;> exact agrees.append (.update update)
          | fetch uri completed =>
              cases inside with
              | false => exact agrees.append (.fetch uri completed)
              | true =>
                  simp only [Strand.call, Strand.perform_issued,
                    Strand.perform_queue, Strand.perform_proxies]
                  exact agrees
      | run =>
          simp only [strandMachine, strandStep] at stepped
          split at stepped
          case h_1 => cases stepped
          case h_2 job rest queue =>
            cases stepped
            rw [queue] at agrees
            rw [Strand.perform_issued, Strand.perform_queue,
              Strand.perform_proxies]
            exact agrees.2
      | other event =>
          simp only [strandMachine, strandStep] at stepped
          split at stepped
          case isFalse => cases stepped
          case isTrue other =>
            obtain ⟨client, inner, rfl⟩ := Option.map_eq_some_iff.mp stepped
            have notUpdate : ∀ update, event ≠ .update update := by
              rintro update rfl
              cases other
            rw [(step_settings inner).2 notUpdate]
            exact agrees

/-- A fetch that is called on the strand uses the map its caller has asked for
exactly if it overtakes no update that changes the map. -/
theorem used_eq_issued_iff {rules : UrlRules} {maxPending : Nat} {s : Strand}
    (reached : (strandMachine rules maxPending).Reached s) (uri : Url)
    (completed : Bool) :
    s.client.proxies = s.issued ↔
      (StrandEvent.call true (.fetch uri completed)).Settled s := by
  have same : s.settled = s.issued := (reached_agrees reached).settled
  simp only [StrandEvent.Settled, same]
  exact eq_comm

/-- Every fetch selects its proxy from the map that reflects all updates called
before it, as long as no fetch that is called on the strand overtakes an update
that changes the map. -/
theorem reached_selectsCurrent {rules : UrlRules} {maxPending : Nat}
    {s : Strand}
    (reached : (strandMachine rules maxPending).ReachedBy
      (fun before event => event.Settled before) s) :
    ∀ selection ∈ s.selections, selection.used = selection.issued := by
  induction reached with
  | start => simp [strandMachine]
  | @step before after event earlier settled stepped current =>
      have performed : ∀ (t : Strand) (job : Job),
          t.selections = before.selections →
          (∀ uri completed, job.call = .fetch uri completed →
            t.client.proxies = job.issued) →
          ∀ selection ∈ (t.perform rules job).selections,
            selection.used = selection.issued := by
        intro t job same fresh selection member
        obtain ⟨call, issued⟩ := job
        cases call with
        | update update =>
            simp only [Strand.perform, same] at member
            exact current selection member
        | fetch uri completed =>
            simp only [Strand.perform, same] at member
            rcases List.mem_append.mp member with old | new
            · exact current selection old
            · rw [List.mem_singleton.mp new]
              exact fresh uri completed rfl
      cases event with
      | call inside call =>
          cases stepped
          cases call with
          | update update => cases inside <;> exact current
          | fetch uri completed =>
              cases inside with
              | false => exact current
              | true =>
                  refine performed { before with issued := before.issued }
                    ⟨.fetch uri completed, before.issued⟩ rfl ?_
                  intro _ _ _
                  exact (used_eq_issued_iff earlier.reached uri completed).mpr
                    settled
      | run =>
          simp only [strandMachine, strandStep] at stepped
          split at stepped
          case h_1 => cases stepped
          case h_2 job rest queue =>
            cases stepped
            have agrees := reached_agrees earlier.reached
            rw [queue] at agrees
            refine performed { before with queue := rest } job rfl ?_
            intro uri completed fetches
            rw [agrees.1, fetches]
            rfl
      | other event =>
          simp only [strandMachine, strandStep] at stepped
          split at stepped
          case isFalse => cases stepped
          case isTrue other =>
            obtain ⟨client, inner, rfl⟩ := Option.map_eq_some_iff.mp stepped
            exact current

def plainProxy : Proxy where
  url := { localUrl with port := "3128" }

/-- From outside the strand: a proxy is added, then a fetch is called. -/
def outsideRun : List StrandEvent :=
  [.call false (.update (.add (.scheme .https) plainProxy)),
    .call false (.fetch localUrl false), .run, .run]

theorem selectsCurrent_of_outsideRun :
    ∃ s : Strand, s.selections.length = 1 ∧
      ∀ selection ∈ s.selections, selection.used = selection.issued := by
  have executed : ((strandMachine specialRules 10).runWhere
      (fun before event => event.Settled before)
      (strandMachine specialRules 10).start outsideRun).map
        (fun s => s.selections.length) = some 1 := by
    decide +kernel
  obtain ⟨s, ran, one⟩ := Option.map_eq_some_iff.mp executed
  exact ⟨s, one, reached_selectsCurrent (Machine.reachedBy_of_runWhere _ ran)⟩

/-- The same calls from a handler that runs on the strand. -/
def insideRun : List StrandEvent :=
  [.call true (.update (.add (.scheme .https) plainProxy)),
    .call true (.fetch localUrl false)]

theorem insideRun_not_selectsCurrent :
    ¬∀ rules maxPending (s : Strand),
      (strandMachine rules maxPending).Reached s →
      ∀ selection ∈ s.selections, selection.used = selection.issued := by
  intro current
  have executed : ((strandMachine specialRules 10).run
      (strandMachine specialRules 10).start insideRun).map
        (fun s => s.selections.map (fun selection =>
          decide (selection.used = selection.issued))) = some [false] := by
    decide +kernel
  obtain ⟨s, ran, stale⟩ := Option.map_eq_some_iff.mp executed
  have reached := Machine.reached_of_run insideRun ran
  obtain ⟨selection, member, different⟩ : ∃ selection ∈ s.selections,
      decide (selection.used = selection.issued) = false := by
    apply List.mem_map.mp
    rw [stale]
    exact List.mem_singleton.mpr rfl
  exact of_decide_eq_false different
    (current specialRules 10 s reached selection member)

end Fetchpp.Client
