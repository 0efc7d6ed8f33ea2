import PulseProcessor.Proofs.Readout.Draining
import PulseProcessor.Readout.Client

/-! # Chunks are delivered once and in order

Client and worker take their steps in any order (`Exchange.Step`).  The worker of a run sends
chunks, then perhaps one failure, and then finishes; the client may start, stop and poll whenever it
likes.  An `Exchange` keeps, beside the client, a record of the latest run: what its worker has sent
and what the polls of the run have been answered.

Of what has been sent a part is taken and the rest is in the queue, in their order.  A failure is
behind all chunks: first in the queue, then perhaps held back by the client, and then told
(`Underway`).  Every step keeps this up.  A poll empties the queue, so the next one has nothing to
tell but a failure that was held back; that is why two polls behind the end of a worker bring
everything (`Sound.caught_up`).
-/

namespace PulseProcessor.Readout

/-! ### Steps of client and worker -/

/-- What client and worker can do. -/
inductive Action where
  | start
  | stop
  | poll
  | send (chunk : Chunk)
  | fail (e : Error)
  | finish
  deriving DecidableEq

/-- A client, and what has happened in its latest run. -/
structure Exchange where
  client : Client := {}
  /-- There has been a run. -/
  started : Bool := false
  /-- The worker of the run has finished; without a run there is none. -/
  finished : Bool := true
  /-- The run has been asked to stop. -/
  stopped : Bool := false
  /-- The chunks that the worker has sent, the oldest first. -/
  sent : List Chunk := []
  /-- The failure that it has sent behind them. -/
  failure : Option Error := none
  /-- What the polls of the run have been answered, the oldest first. -/
  answers : List (Except Error (List Chunk)) := []

namespace Exchange

/-- **One step.**  A worker sends chunks until it has sent a failure, and nothing once it has
finished.  With a run that is started the record begins anew. -/
inductive Step : Exchange → Action → Exchange → Prop
  | start {x : Exchange} {client : Client} (accepted : x.client.start = .ok client) :
      Step x .start { client, started := true, finished := false }
  | refused {x : Exchange} {e : Error} (refused : x.client.start = .error e) : Step x .start x
  | stop (x : Exchange) : Step x .stop { x with client := x.client.stop, stopped := x.started }
  | poll (x : Exchange) :
      Step x .poll { x with client := x.client.poll.2, answers := x.answers ++ [x.client.poll.1] }
  | send {x : Exchange} (working : x.finished = false) (sound : x.failure = none) (chunk : Chunk) :
      Step x (.send chunk)
        { x with client := x.client.deliver (.chunk chunk), sent := x.sent ++ [chunk] }
  | fail {x : Exchange} (working : x.finished = false) (sound : x.failure = none) (e : Error) :
      Step x (.fail e) { x with client := x.client.deliver (.failure e), failure := some e }
  | finish {x : Exchange} (working : x.finished = false) :
      Step x .finish { x with client := x.client.finish, finished := true }

/-- Steps one behind the other. -/
inductive Steps : Exchange → List Action → Exchange → Prop
  | refl (x : Exchange) : Steps x [] x
  | step {x y z : Exchange} {action : Action} {actions : List Action} (head : Step x action y)
      (tail : Steps y actions z) : Steps x (action :: actions) z

theorem Steps.append {x y z : Exchange} {actions more : List Action} (h : Steps x actions y)
    (h' : Steps y more z) : Steps x (actions ++ more) z := by
  induction h with
  | refl => exact h'
  | step head _ ih => exact .step head (ih h')

end Exchange

/-- The chunks that polls have brought. -/
def taken (answers : List (Except Error (List Chunk))) : List Chunk :=
  answers.flatMap fun
    | .ok chunks => chunks
    | .error _ => []

/-- The failures that polls have told. -/
def failures (answers : List (Except Error (List Chunk))) : List Error :=
  answers.flatMap fun
    | .ok _ => []
    | .error e => [e]

/-! ### What is under way -/

/-- **How far the client has come** with what a worker has sent, given the queue and the failure
that the client holds back. -/
inductive Underway (sent : List Chunk) (failure : Option Error)
    (answers : List (Except Error (List Chunk))) : List Message → Option Error → Prop
  /-- The failure, if there is one, is in the queue behind the chunks that have not been taken. -/
  | flowing (unread : List Chunk) (sent_eq : sent = taken answers ++ unread)
      (untold : failures answers = []) :
      Underway sent failure answers (unread.map .chunk ++ (failure.map .failure).toList) none
  | held {e : Error} (failed : failure = some e) (sent_eq : sent = taken answers)
      (untold : failures answers = []) : Underway sent failure answers [] (some e)
  | told {e : Error} {before after : List (Except Error (List Chunk))} (failed : failure = some e)
      (answers_eq : answers = before ++ .error e :: after) (sent_eq : sent = taken before)
      (untold : failures before = []) (nothing : ∀ answer ∈ after, answer = .ok []) :
      Underway sent failure answers [] none

variable {sent : List Chunk} {failure : Option Error}
  {answers before after : List (Except Error (List Chunk))} {queue : List Message}
  {pending : Option Error} {stopRequested done : Bool}

@[simp] theorem taken_append (before after : List (Except Error (List Chunk))) :
    taken (before ++ after) = taken before ++ taken after :=
  List.flatMap_append

@[simp] theorem failures_append (before after : List (Except Error (List Chunk))) :
    failures (before ++ after) = failures before ++ failures after :=
  List.flatMap_append

@[simp] theorem taken_ok (chunks : List Chunk) (answers : List (Except Error (List Chunk))) :
    taken (.ok chunks :: answers) = chunks ++ taken answers := rfl

@[simp] theorem taken_error (e : Error) (answers : List (Except Error (List Chunk))) :
    taken (.error e :: answers) = taken answers := rfl

@[simp] theorem taken_nil : taken [] = [] := rfl

@[simp] theorem failures_ok (chunks : List Chunk) (answers : List (Except Error (List Chunk))) :
    failures (.ok chunks :: answers) = failures answers := rfl

@[simp] theorem failures_error (e : Error) (answers : List (Except Error (List Chunk))) :
    failures (.error e :: answers) = e :: failures answers := rfl

@[simp] theorem failures_nil : failures [] = [] := rfl

theorem taken_eq_nil (h : ∀ answer ∈ answers, answer = .ok []) : taken answers = [] := by
  rw [taken, List.flatMap_eq_nil_iff]
  intro answer hanswer
  rw [h answer hanswer]

theorem failures_eq_nil (h : ∀ answer ∈ answers, answer = .ok []) : failures answers = [] := by
  rw [failures, List.flatMap_eq_nil_iff]
  intro answer hanswer
  rw [h answer hanswer]

theorem takeChunks_eq (unread : List Chunk) (failure : Option Error) :
    Client.takeChunks (unread.map .chunk ++ (failure.map .failure).toList) =
      (unread, failure, []) := by
  induction unread with
  | nil => cases failure <;> rfl
  | cons chunk unread ih =>
    rw [List.map_cons, List.cons_append, Client.takeChunks, ih]

/-- **A poll empties the queue** and leaves everything else in order.  If the queue has been empty,
the client holds nothing back any more. -/
theorem Underway.poll (h : Underway sent failure answers queue pending) {client : Client}
    (hclient : client = { run := some ⟨queue, stopRequested, done⟩, pending }) :
    ∃ pending', client.poll.2 = { run := some ⟨[], stopRequested, done⟩, pending := pending' } ∧
      Underway sent failure (answers ++ [client.poll.1]) [] pending' ∧
      (queue = [] → pending' = none) := by
  subst hclient
  cases h with
  | flowing unread sent_eq untold =>
    unfold Client.poll
    dsimp only
    rw [takeChunks_eq]
    cases unread with
    | nil =>
      cases failure with
      | none =>
        refine ⟨none, rfl, ?_, fun _ => rfl⟩
        exact .flowing [] (by simpa using sent_eq) (by simpa using untold)
      | some e =>
        refine ⟨none, rfl, ?_, fun _ => rfl⟩
        exact .told rfl rfl (by simpa using sent_eq) untold (by simp)
    | cons chunk unread =>
      cases failure with
      | none =>
        refine ⟨none, rfl, ?_, fun _ => rfl⟩
        exact .flowing [] (by simpa using sent_eq) (by simpa using untold)
      | some e =>
        refine ⟨some e, rfl, ?_, by simp⟩
        exact .held rfl (by simpa using sent_eq) (by simpa using untold)
  | held failed sent_eq untold =>
    exact ⟨none, rfl, .told failed rfl sent_eq untold (by simp), fun _ => rfl⟩
  | told failed answers_eq sent_eq untold nothing =>
    refine ⟨none, rfl, ?_, fun _ => rfl⟩
    rw [answers_eq, List.append_assoc, List.cons_append]
    refine .told failed rfl sent_eq untold ?_
    intro answer hanswer
    rcases List.mem_append.1 hanswer with hanswer | hanswer
    · exact nothing answer hanswer
    · rw [List.mem_singleton.1 hanswer]
      rfl

/-- A chunk goes to the end of the queue. -/
theorem Underway.send (h : Underway sent none answers queue pending) (chunk : Chunk) :
    Underway (sent ++ [chunk]) none answers (queue ++ [.chunk chunk]) pending := by
  cases h with
  | flowing unread sent_eq untold =>
    have hsent : sent ++ [chunk] = taken answers ++ (unread ++ [chunk]) := by
      rw [sent_eq, List.append_assoc]
    have hflowing : Underway (sent ++ [chunk]) none answers _ none :=
      .flowing (unread ++ [chunk]) hsent untold
    simpa using hflowing
  | held failed => cases failed
  | told failed => cases failed

/-- A failure goes there as well, and is the first one. -/
theorem Underway.fail (h : Underway sent none answers queue pending) (e : Error) :
    Underway sent (some e) answers (queue ++ [.failure e]) pending := by
  cases h with
  | flowing unread sent_eq untold =>
    have hflowing : Underway sent (some e) answers _ none := .flowing unread sent_eq untold
    simpa using hflowing
  | held failed => cases failed
  | told failed => cases failed

/-- What has been taken comes first in what has been sent. -/
theorem Underway.taken_prefix (h : Underway sent failure answers queue pending) :
    taken answers <+: sent := by
  cases h with
  | flowing unread sent_eq untold =>
    rw [sent_eq]
    exact List.prefix_append ..
  | held failed sent_eq untold => exact ⟨[], by rw [sent_eq, List.append_nil]⟩
  | told failed answers_eq sent_eq untold nothing =>
    refine ⟨[], ?_⟩
    rw [answers_eq, taken_append, sent_eq, taken_error, taken_eq_nil nothing, List.append_nil,
      List.append_nil]

/-- **A failure is told once, behind all chunks, and nothing behind it.** -/
theorem Underway.of_error {e : Error} (h : Underway sent failure answers queue pending)
    (hanswers : answers = before ++ .error e :: after) :
    failure = some e ∧ taken before = sent ∧ failures before = [] ∧
      ∀ answer ∈ after, answer = .ok [] := by
  have htold : e ∈ failures answers := by
    rw [hanswers]
    simp
  cases h with
  | flowing unread sent_eq untold =>
    rw [untold] at htold
    cases htold
  | held failed sent_eq untold =>
    rw [untold] at htold
    cases htold
  | @told e' before' after' failed answers_eq sent_eq untold nothing =>
    -- Only one answer is a failure, so it is this one.
    rw [hanswers] at answers_eq
    rcases List.append_eq_append_iff.1 answers_eq with
      ⟨between, hbefore, hrest⟩ | ⟨between, hbefore, hrest⟩
    · cases between with
      | nil =>
        cases hrest
        rw [List.append_nil] at hbefore
        exact ⟨failed, hbefore ▸ sent_eq.symm, hbefore ▸ untold, nothing⟩
      | cons answer between =>
        cases hrest
        simp [hbefore] at untold
    · cases between with
      | nil =>
        cases hrest
        rw [List.append_nil] at hbefore
        exact ⟨failed, hbefore ▸ sent_eq.symm, hbefore ▸ untold, nothing⟩
      | cons answer between =>
        cases hrest
        have := nothing (.error e) (by simp)
        cases this

/-- With nothing in the queue and nothing held back, all that was sent has been delivered. -/
theorem Underway.settled (h : Underway sent failure answers [] none) :
    taken answers = sent ∧ failures answers = failure.toList := by
  generalize hqueue : ([] : List Message) = queue at h
  cases h with
  | flowing unread sent_eq untold =>
    obtain ⟨hunread, hfailure⟩ := List.append_eq_nil_iff.1 hqueue.symm
    obtain rfl := List.map_eq_nil_iff.1 hunread
    cases failure with
    | none =>
      rw [List.append_nil] at sent_eq
      exact ⟨sent_eq.symm, untold⟩
    | some e => cases hfailure
  | @told e before after failed answers_eq sent_eq untold nothing =>
    rw [answers_eq, taken_append, failures_append, sent_eq, untold, failed, taken_error,
      failures_error, taken_eq_nil nothing, failures_eq_nil nothing]
    exact ⟨List.append_nil _, rfl⟩

theorem client_eq {client : Client} (h : client.run = some ⟨queue, stopRequested, done⟩) :
    client = { run := some ⟨queue, stopRequested, done⟩, pending := client.pending } := by
  cases client
  cases h
  rfl

namespace Exchange

variable {x y z : Exchange} {action : Action} {actions : List Action}

/-- **The client and the record agree.** -/
inductive Sound : Exchange → Prop
  /-- There has been no run, and polls have found nothing. -/
  | new {answers : List (Except Error (List Chunk))}
      (nothing : ∀ answer ∈ answers, answer = .ok []) : Sound { answers }
  | running {x : Exchange} {queue : List Message} (started : x.started = true)
      (run : x.client.run = some ⟨queue, x.stopped, x.finished⟩)
      (underway : Underway x.sent x.failure x.answers queue x.client.pending) : Sound x

/-- **Every step keeps client and record in agreement.** -/
theorem Sound.step (h : x.Sound) (hstep : Step x action y) : y.Sound := by
  cases hstep with
  | start accepted =>
    unfold Client.start at accepted
    split at accepted
    · cases accepted
    · cases accepted
      exact .running rfl rfl (.flowing [] rfl rfl)
  | refused => exact h
  | stop =>
    cases h with
    | new nothing => exact .new nothing
    | running started run underway =>
      exact .running started (by simp [Client.stop, run, started]) underway
  | poll =>
    cases h with
    | new nothing =>
      refine .new fun answer hanswer => ?_
      rcases List.mem_append.1 hanswer with hanswer | hanswer
      · exact nothing answer hanswer
      · exact List.mem_singleton.1 hanswer
    | running started run underway =>
      obtain ⟨pending, hclient, hunderway, -⟩ := underway.poll (client_eq run)
      rw [hclient]
      exact .running started rfl hunderway
  | send working sound chunk =>
    cases h with
    | new nothing => cases working
    | running started run underway =>
      rw [sound] at underway
      refine .running started (by rw [Client.deliver, run]; rfl) ?_
      dsimp only
      rw [sound]
      exact underway.send chunk
  | fail working sound e =>
    cases h with
    | new nothing => cases working
    | running started run underway =>
      rw [sound] at underway
      exact .running started (by rw [Client.deliver, run]; rfl) (underway.fail e)
  | finish working =>
    cases h with
    | new nothing => cases working
    | running started run underway =>
      exact .running started (by rw [Client.finish, run]; rfl) underway

theorem Sound.steps (h : x.Sound) (hsteps : Steps x actions y) : y.Sound := by
  induction hsteps with
  | refl => exact h
  | step head _ ih => exact ih (h.step head)

/-! ### Behind the end of a worker -/

/-- What `polls` polls have seen to: the first one empties the queue, and the second one leaves
nothing held back. -/
def CaughtUp (x : Exchange) : Nat → Prop
  | 0 => True
  | 1 => ∀ run ∈ x.client.run, run.queue = []
  | _ => (∀ run ∈ x.client.run, run.queue = []) ∧ x.client.pending = none

theorem Sound.poll_caughtUp (h : x.Sound) {polls : Nat} (hcaught : x.CaughtUp polls)
    (hstep : Step x .poll y) : y.CaughtUp (polls + 1) := by
  cases hstep
  cases h with
  | new nothing =>
    cases polls with
    | zero => simp [CaughtUp, Client.poll]
    | succ polls => simp [CaughtUp, Client.poll]
  | running started run underway =>
    obtain ⟨pending, hclient, -, hnone⟩ := underway.poll (client_eq run)
    rcases polls with _ | _ | polls
    · simp [CaughtUp, hclient]
    · simp only [CaughtUp, hclient]
      exact ⟨by simp, hnone (hcaught _ run)⟩
    · simp only [CaughtUp, hclient]
      exact ⟨by simp, hnone (hcaught.1 _ run)⟩

theorem stop_caughtUp {polls : Nat} (hcaught : x.CaughtUp polls) (hstep : Step x .stop y) :
    y.CaughtUp polls := by
  cases hstep
  have hqueue (hempty : ∀ run ∈ x.client.run, run.queue = []) :
      ∀ run ∈ x.client.stop.run, run.queue = [] := by
    intro run hrun
    obtain ⟨run', hrun', rfl⟩ := Option.map_eq_some_iff.1 hrun
    exact hempty run' hrun'
  rcases polls with _ | _ | polls
  · trivial
  · exact hqueue hcaught
  · exact ⟨hqueue hcaught.1, hcaught.2⟩

/-- **Once the worker has finished, polls only catch up**, whatever is done short of a new start. -/
theorem Sound.caught_up (h : x.Sound) (hfinished : x.finished = true) {polls : Nat}
    (hcaught : x.CaughtUp polls) (hsteps : Steps x actions y) (hstart : .start ∉ actions) :
    y.Sound ∧ y.sent = x.sent ∧ y.failure = x.failure ∧
      y.CaughtUp (polls + actions.count .poll) := by
  induction hsteps generalizing polls with
  | refl => exact ⟨h, rfl, rfl, hcaught⟩
  | @step x y z action actions head tail ih =>
    rw [List.mem_cons, not_or] at hstart
    have hsound := h.step head
    cases action with
    | start => exact absurd rfl hstart.1
    | stop =>
      have hstop := stop_caughtUp hcaught head
      cases head
      rw [List.count_cons_of_ne (by decide)]
      exact ih hsound hfinished hstop hstart.2
    | poll =>
      have hpoll := h.poll_caughtUp hcaught head
      cases head
      rw [List.count_cons_self, Nat.add_comm (List.count ..), ← Nat.add_assoc]
      exact ih hsound hfinished hpoll hstart.2
    | send chunk =>
      cases head with
      | send working => rw [hfinished] at working; cases working
    | fail e =>
      cases head with
      | fail working => rw [hfinished] at working; cases working
    | finish =>
      cases head with
      | finish working => rw [hfinished] at working; cases working

/-- After two polls all that was sent has been delivered. -/
theorem Sound.settled (h : x.Sound) {polls : Nat} (hcaught : x.CaughtUp (polls + 2)) :
    taken x.answers = x.sent ∧ failures x.answers = x.failure.toList := by
  cases h with
  | new nothing => exact ⟨taken_eq_nil nothing, failures_eq_nil nothing⟩
  | running started run underway =>
    obtain ⟨hqueue, hpending⟩ := hcaught
    obtain rfl := hqueue _ run
    rw [hpending] at underway
    exact underway.settled

/-- **A poll that finds nothing** finds that all has been delivered, unless a failure has been told
before. -/
theorem Sound.of_poll_nil (h : x.Sound) (huntold : failures x.answers = [])
    (hpoll : x.client.poll.1 = .ok []) : taken x.answers = x.sent ∧ x.failure = none := by
  cases h with
  | new nothing => exact ⟨taken_eq_nil nothing, rfl⟩
  | running started run underway =>
    rw [client_eq run] at hpoll
    generalize hpending : x.client.pending = pending at underway hpoll
    cases underway with
    | flowing unread sent_eq untold =>
      simp only [Client.poll, takeChunks_eq] at hpoll
      cases unread with
      | nil =>
        cases hfailure : x.failure with
        | none => exact ⟨by rw [sent_eq, List.append_nil], rfl⟩
        | some e =>
          rw [hfailure] at hpoll
          cases hpoll
      | cons chunk unread => cases hpoll
    | held failed => cases hpoll
    | told failed answers_eq =>
      rw [answers_eq] at huntold
      simp at huntold

/-! ### Starting and stopping -/

theorem Sound.alive_iff (h : x.Sound) :
    x.client.alive = true ↔ x.started = true ∧ x.finished = false := by
  cases h with
  | new nothing => simp [Client.alive]
  | running started run underway => simp [Client.alive, run, started]

theorem Sound.done_eq (h : x.Sound) : x.client.done = x.finished := by
  cases h with
  | new nothing => rfl
  | running started run underway => simp [Client.done, run]

theorem Sound.stopRequested_eq (h : x.Sound) : x.client.stopRequested = x.stopped := by
  cases h with
  | new nothing => rfl
  | running started run underway => simp [Client.stopRequested, run]

end Exchange

/-- **A worker that has seen the request to stop is done with the device.**  From the head of that
poll on it delivers nothing and asks the device for nothing, so the device stays as it is. -/
theorem Worker.run_stopped {σ : Type} (device : Device σ) (w : Worker) (before after : List Bool)
    (s : σ) :
    (w.run device (before ++ true :: after) s).1 = (w.run device before s).1 ∧
      (w.run device (before ++ true :: after) s).2.2 = (w.run device before s).2.2 ∧
      ∀ w', (w.run device (before ++ true :: after) s).2.1 ≠ .polling w' := by
  induction before generalizing w s with
  | nil =>
    have hpoll : w.poll device true s = (.completed, s) ∨ w.poll device true s = (.stopped, s) := by
      unfold Worker.poll
      by_cases hall : w.drained ≥ w.job.total
      · exact .inl (if_pos hall)
      · exact .inr (by rw [if_neg hall, if_pos rfl])
    rw [List.nil_append, Worker.run, Worker.run]
    rcases hpoll with hpoll | hpoll
    · rw [hpoll]
      exact ⟨rfl, rfl, fun _ h => by cases h⟩
    · rw [hpoll]
      exact ⟨rfl, rfl, fun _ h => by cases h⟩
  | cons stop before ih =>
    rw [List.cons_append, Worker.run, Worker.run]
    rcases w.poll device stop s with ⟨progress, s₁⟩
    cases progress with
    | idle => exact ih w s₁
    | delivered chunk next =>
      obtain ⟨hchunks, hstate, houtcome⟩ := ih next s₁
      exact ⟨congrArg (chunk :: ·) hchunks, hstate, houtcome⟩
    | failed e => exact ⟨rfl, rfl, fun _ h => by cases h⟩
    | stopped => exact ⟨rfl, rfl, fun _ h => by cases h⟩
    | completed => exact ⟨rfl, rfl, fun _ h => by cases h⟩

namespace Exchange

/-- **Delivery, exactly once and in order.**  However client and worker take turns, over any number
of runs: what the polls of a run have brought is the beginning of what its worker has sent.  A
failure is told by one poll, which comes behind all chunks, and the polls behind it bring nothing.
Once the worker has finished, two polls bring all that is left.  A start is refused as long as a
worker is at work, and then changes nothing; otherwise the new run begins with an empty queue,
nothing held back and no request to stop.  A worker that has seen a request to stop at the head of a
poll asks the device for nothing more. -/
theorem delivered_exactly_once {actions : List Action} {x : Exchange} (h : Steps {} actions x) :
    taken x.answers <+: x.sent ∧
      (∀ before e after, x.answers = before ++ .error e :: after →
        x.failure = some e ∧ taken before = x.sent ∧ failures before = [] ∧
          ∀ answer ∈ after, answer = .ok []) ∧
      (x.client.done = true → ∀ more y, Steps x more y → .start ∉ more → 2 ≤ more.count .poll →
        y.sent = x.sent ∧ taken y.answers = x.sent ∧ failures y.answers = x.failure.toList) ∧
      (x.started = true ∧ x.finished = false →
        x.client.start = .error .alreadyRunning ∧ ∀ y, Step x .start y → y = x) ∧
      (¬ (x.started = true ∧ x.finished = false) →
        x.client.start = .ok { run := some {} } ∧ ∀ y, Step x .start y →
          y = { client := { run := some {} }, started := true, finished := false }) ∧
      x.client.stopRequested = x.stopped ∧
      ∀ {σ : Type} (device : Device σ) (w : Worker) (before after : List Bool) (s : σ),
        (w.run device (before ++ true :: after) s).1 = (w.run device before s).1 ∧
          (w.run device (before ++ true :: after) s).2.2 = (w.run device before s).2.2 ∧
          ∀ w', (w.run device (before ++ true :: after) s).2.1 ≠ .polling w' := by
  have hsound : x.Sound := Sound.steps (.new (by simp)) h
  have halive := hsound.alive_iff
  refine ⟨?_, ?_, ?_, ?_, ?_, hsound.stopRequested_eq, fun device w before after s =>
    w.run_stopped device before after s⟩
  · cases hsound with
    | new nothing =>
      exact ⟨[], by rw [taken_eq_nil nothing, List.append_nil]⟩
    | running started run underway => exact underway.taken_prefix
  · intro before e after hanswers
    cases hsound with
    | @new answers nothing =>
      have hmem : .error e ∈ answers := by
        rw [show answers = before ++ .error e :: after from hanswers]
        simp
      cases nothing _ hmem
    | running started run underway => exact underway.of_error hanswers
  · intro hdone more y hmore hstart hpolls
    rw [hsound.done_eq] at hdone
    obtain ⟨hy, hsent, hfailure, hcaught⟩ := hsound.caught_up hdone (show x.CaughtUp 0 from trivial)
      hmore hstart
    obtain ⟨polls, hcount⟩ := Nat.exists_eq_add_of_le' hpolls
    rw [Nat.zero_add, hcount] at hcaught
    obtain ⟨htaken, hfailures⟩ := hy.settled hcaught
    exact ⟨hsent, htaken.trans hsent, hfailures.trans (congrArg _ hfailure)⟩
  · intro hworking
    have hstart : x.client.start = .error .alreadyRunning := if_pos (halive.2 hworking)
    refine ⟨hstart, fun y hstep => ?_⟩
    cases hstep with
    | start accepted => rw [hstart] at accepted; cases accepted
    | refused => rfl
  · intro hidle
    have hstart : x.client.start = .ok { run := some {} } := if_neg (mt halive.1 hidle)
    refine ⟨hstart, fun y hstep => ?_⟩
    cases hstep with
    | start accepted =>
      rw [hstart] at accepted
      cases accepted
      rfl
    | refused refused => rw [hstart] at refused; cases refused

/-- The first samples of a run. -/
def firstChunk : Chunk := { count := 3, address := 0, length := 2, samples := [[⟨1, -1⟩, ⟨2, -2⟩]] }

/-- The client holds a failure back and asks for a stop; a start comes too early, and then a new run
begins. -/
def restart : List Action :=
  [.start, .send firstChunk, .fail (.hardwareTimeout 5), .poll, .stop, .start, .finish, .start,
    .send { firstChunk with count := 2 }, .poll, .finish]

theorem delivered_exactly_once_restart : ∃ x, Steps {} restart x ∧
    x.answers = [.ok [{ firstChunk with count := 2 }]] ∧ x.client.stopRequested = false ∧
    taken x.answers <+: x.sent ∧ ∃ y, Steps x [.poll, .stop, .poll] y ∧
      taken y.answers = x.sent ∧ failures y.answers = [] := by
  let last : Exchange := {
    client := { run := some { done := true } }
    started := true
    sent := [{ firstChunk with count := 2 }]
    answers := [.ok [{ firstChunk with count := 2 }]] }
  have hsteps : Steps {} restart last :=
    .step (.start rfl) <| .step (.send rfl rfl _) <| .step (.fail rfl rfl _) <| .step (.poll _) <|
    .step (.stop _) <| .step (.refused rfl) <| .step (.finish rfl) <| .step (.start rfl) <|
    .step (.send rfl rfl _) <| .step (.poll _) <| .step (.finish rfl) <| .refl _
  obtain ⟨htaken, -, hcaught, -, -, hstop, -⟩ := delivered_exactly_once hsteps
  have hmore : Steps last [.poll, .stop, .poll] _ :=
    .step (.poll _) <| .step (.stop _) <| .step (.poll _) <| .refl _
  obtain ⟨-, hall, hfailures⟩ := hcaught rfl _ _ hmore (by decide) (by decide)
  exact ⟨last, hsteps, rfl, hstop, htaken, _, hmore, hall, hfailures⟩

end Exchange
end PulseProcessor.Readout
