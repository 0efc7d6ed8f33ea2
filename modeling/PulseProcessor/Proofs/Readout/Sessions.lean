import PulseProcessor.Proofs.Readout.Collecting
import PulseProcessor.Readout.Session

/-! # Sessions are exchanges

The thread of a session's worker goes on in turns, and its client makes calls.  Each of these is a
step of an exchange, or a few of them, and the record of the exchange goes with the session
(`Tracks`).  So whatever is known of exchanges holds of sessions, however many turns lie between two
calls.

A session that gives its thread the turns by itself gives it finitely many (`settle_eq_turns`).
Behind a request to stop these are enough for it to finish (`thread_settle`), so draining ends when
the worker has finished (`Tracks.drain`).  However a session is used, it goes with an exchange
(`Session.InUse.tracks`).
-/

namespace PulseProcessor.Readout

variable {σ : Type} {x : Session σ} {e e' e'' : Exchange} {w : Worker} {n : Nat}

/-! ### Turns of the thread -/

namespace Session

/-- The session behind some turns of its thread. -/
def turns (x : Session σ) : Nat → Session σ
  | 0 => x
  | n + 1 => x.turn.2.turns n

theorem turns_add (x : Session σ) (m n : Nat) : x.turns (m + n) = (x.turns m).turns n := by
  induction m generalizing x with
  | zero => rw [Nat.zero_add]; rfl
  | succ m ih =>
    rw [Nat.succ_add]
    exact ih x.turn.2

/-- A thread that has finished does nothing. -/
theorem turn_of_finished (h : x.thread = none) : x.turn = (none, x) := by
  rw [turn, h]

theorem turns_of_finished (h : x.thread = none) (n : Nat) : x.turns n = x := by
  induction n with
  | zero => rfl
  | succ n ih => rw [turns, turn_of_finished h, ih]

theorem turn_engaged {job : Job} (h : x.thread = some (.engaged job)) : x.turn.2 =
    match Worker.begin x.source.toDevice x.config job x.state with
    | (.ok w, s) => { x with state := s, thread := some (.polling w) }
    | (.error error, s) => { x with state := s }.post (.failed (.ofDevice error)) := by
  rw [turn, h]
  dsimp only
  rcases Worker.begin x.source.toDevice x.config job x.state with ⟨error | w, s⟩ <;> rfl

theorem turn_polling (h : x.thread = some (.polling w)) : x.turn.2 =
    { x with
      state := (w.poll x.source.toDevice x.client.stopRequested x.state).2 }.post
        (w.poll x.source.toDevice x.client.stopRequested x.state).1 := by
  rw [turn, h]

theorem turn_leaving (h : x.thread = some .leaving) :
    x.turn.2 = { x with thread := none, client := x.client.finish } := by
  rw [turn, h]

/-- **Polling until a poll is not idle is a row of turns.** -/
theorem pollFor_eq_turns (h : x.thread = some (.polling w)) (n : Nat) : ∃ k, x.turns k =
    { x with
      state := (w.pollFor x.source.toDevice x.client.stopRequested n x.state).2 }.post
        (w.pollFor x.source.toDevice x.client.stopRequested n x.state).1 := by
  induction n generalizing x with
  | zero => exact ⟨1, turn_polling h⟩
  | succ n ih =>
    have hturn := turn_polling h
    rw [Worker.pollFor]
    rcases hpoll : w.poll x.source.toDevice x.client.stopRequested x.state with ⟨progress, s⟩
    rw [hpoll] at hturn
    cases progress with
    | idle =>
      obtain ⟨k, hk⟩ := ih (x := { x with state := s }) h
      exact ⟨k + 1, by rw [turns, hturn]; exact hk⟩
    | _ => exact ⟨1, hturn⟩

theorem settleFor_eq_turns (n : Nat) (x : Session σ) : ∃ k, x.settleFor n = x.turns k := by
  induction n generalizing x with
  | zero => exact ⟨0, rfl⟩
  | succ n ih =>
    have hturn : ∃ k, x.turn.2.settleFor n = x.turns k := by
      obtain ⟨k, hk⟩ := ih x.turn.2
      exact ⟨k + 1, hk⟩
    rw [settleFor]
    cases hthread : x.thread with
    | none => exact ⟨0, rfl⟩
    | some thread =>
      cases thread with
      | engaged job => exact hturn
      | leaving => exact hturn
      | polling w =>
        obtain ⟨k, hk⟩ := pollFor_eq_turns hthread (x.patience w)
        rw [hthread] at hk
        dsimp only
        generalize w.pollFor x.source.toDevice x.client.stopRequested (x.patience w) x.state =
          step at hk ⊢
        obtain ⟨progress, s⟩ := step
        dsimp only at hk ⊢
        rw [← hk]
        cases progress with
        | idle => exact ⟨k, rfl⟩
        | _ =>
          obtain ⟨k', hk'⟩ := ih (x.turns k)
          exact ⟨k + k', hk'.trans (x.turns_add k k').symm⟩

/-- **A session gives its thread a number of turns.** -/
theorem settle_eq_turns (x : Session σ) : ∃ k, x.settle = x.turns k := by
  rw [settle]
  cases x.thread with
  | none => exact ⟨0, rfl⟩
  | some thread => exact x.settleFor_eq_turns _

/-! ### Behind a request to stop -/

theorem settleFor_of_finished (h : x.thread = none) (n : Nat) : x.settleFor n = x := by
  cases n with
  | zero => rfl
  | succ n => rw [settleFor, h]

theorem settleFor_leaving (h : x.thread = some .leaving) (n : Nat) :
    (x.settleFor (n + 1)).thread = none := by
  have hturn : x.turn.2.thread = none := by rw [turn_leaving h]
  rw [settleFor, h]
  dsimp only
  rw [settleFor_of_finished hturn]
  exact hturn

theorem settleFor_polling (h : x.thread = some (.polling w))
    (hstop : x.client.stopRequested = true) (n : Nat) : (x.settleFor (n + 2)).thread = none := by
  have hpoll (m : Nat) (s : σ) : w.pollFor x.source.toDevice true m s = (.completed, s) ∨
      w.pollFor x.source.toDevice true m s = (.stopped, s) := by
    have hone : w.poll x.source.toDevice true s = (.completed, s) ∨
        w.poll x.source.toDevice true s = (.stopped, s) := by
      unfold Worker.poll
      by_cases hall : w.drained ≥ w.job.total
      · exact .inl (if_pos hall)
      · exact .inr (by rw [if_neg hall, if_pos rfl])
    cases m with
    | zero => exact hone
    | succ m =>
      rw [Worker.pollFor]
      rcases hone with hone | hone
      · rw [hone]
        exact .inl rfl
      · rw [hone]
        exact .inr rfl
  rw [settleFor, h, hstop]
  dsimp only
  rcases hpoll (x.patience w) x.state with hone | hone
  · rw [hone]
    exact settleFor_leaving rfl n
  · rw [hone]
    exact settleFor_leaving rfl n

/-- **A worker that has been asked to stop finishes** when its thread is given its turns. -/
theorem thread_settle (hstop : x.client.stopRequested = true) : x.settle.thread = none := by
  rw [settle]
  cases hthread : x.thread with
  | none => exact hthread
  | some thread =>
    cases thread with
    | polling w => exact settleFor_polling hthread hstop _
    | leaving => exact settleFor_leaving hthread _
    | engaged job =>
      have hturn := turn_engaged hthread
      dsimp only
      rw [settleFor, hthread]
      dsimp only
      rcases hbegin : Worker.begin x.source.toDevice x.config job x.state with ⟨error | w, s⟩
      · rw [hbegin] at hturn
        exact settleFor_leaving (by rw [hturn]; rfl) _
      · rw [hbegin] at hturn
        rw [hturn]
        exact settleFor_polling (x := { x with state := s, thread := some (.polling w) })
          rfl hstop _

end Session

/-! ### Steps of the worker -/

namespace Exchange

/-- **The worker alone takes steps** from `e` to `e'`. -/
def Works (e e' : Exchange) : Prop :=
  ∃ actions, (∀ action ∈ actions, Action.ofWorker action = true) ∧ Steps e actions e'

theorem Works.refl (e : Exchange) : Works e e := ⟨[], nofun, .refl e⟩

theorem Works.step {action : Action} (head : Step e action e')
    (hworker : action.ofWorker = true) (rest : Works e' e'') : Works e e'' := by
  obtain ⟨actions, hall, hsteps⟩ := rest
  exact ⟨action :: actions, List.forall_mem_cons.2 ⟨hworker, hall⟩, .step head hsteps⟩

theorem Works.trans (h : Works e e') (h' : Works e' e'') : Works e e'' := by
  obtain ⟨actions, hall, hsteps⟩ := h
  induction hsteps with
  | refl => exact h'
  | step head _ ih =>
    obtain ⟨hworker, hall⟩ := List.forall_mem_cons.1 hall
    exact (ih h' hall).step head hworker

/-- The client is told nothing meanwhile. -/
theorem Works.answers (h : Works e e') : e'.answers = e.answers := by
  obtain ⟨actions, hall, hsteps⟩ := h
  induction hsteps with
  | refl => rfl
  | step head _ ih =>
    obtain ⟨hworker, hall⟩ := List.forall_mem_cons.1 hall
    exact (ih hall).trans (head.of_worker hworker).2.2

/-- Draining may begin later. -/
theorem Works.drains {stage : Stage} {soFar : List Chunk} {call : Call} (h : Works e e')
    (hdrains : Drains stage soFar e' call e'') : Drains stage soFar e call e'' := by
  obtain ⟨actions, hall, hsteps⟩ := h
  induction hsteps with
  | refl => exact hdrains
  | step head _ ih =>
    obtain ⟨hworker, hall⟩ := List.forall_mem_cons.1 hall
    exact .work head hworker (ih hdrains hall)

/-- The exchange when a poll of the worker has been posted. -/
def posted (e : Exchange) : Progress → Exchange
  | .delivered chunk _ =>
    { e with client := e.client.deliver (.chunk chunk), sent := e.sent ++ [chunk] }
  | .failed error => { e with client := e.client.deliver (.failure error), failure := some error }
  | .idle | .stopped | .completed => e

/-- The exchange when the worker has finished. -/
def left (e : Exchange) : Exchange := { e with client := e.client.finish, finished := true }

theorem works_posted (hworking : e.finished = false) (hsound : e.failure = none)
    (progress : Progress) : Works e (e.posted progress) := by
  cases progress with
  | delivered chunk next => exact (Works.refl _).step (.send hworking hsound chunk) rfl
  | failed error => exact (Works.refl _).step (.fail hworking hsound error) rfl
  | idle | stopped | completed => exact .refl e

end Exchange

/-- A round of draining that finds the worker finished is the last. -/
theorem Client.drainRound_of_done {c : Client} (h : c.done = true) (taken : List Chunk) :
    ∃ answer c', c.drainRound taken = (.over answer, c') := by
  rw [drainRound, h]
  rcases c.poll with ⟨error | chunks, c'⟩
  · exact ⟨_, _, rfl⟩
  · dsimp only
    rw [if_pos rfl]
    rcases c'.poll with ⟨error | more, c''⟩ <;> exact ⟨_, _, rfl⟩

open Exchange

/-- The exchange when the thread of a session has had one more turn. -/
def Exchange.turned (e : Exchange) (x : Session σ) : Exchange :=
  match x.thread with
  | none => e
  | some (.engaged job) =>
    match (Worker.begin x.source.toDevice x.config job x.state).1 with
    | .ok _ => e
    | .error error => e.posted (.failed (.ofDevice error))
  | some (.polling w) => e.posted (w.poll x.source.toDevice x.client.stopRequested x.state).1
  | some .leaving => e.left

/-! ### The record of a session -/

/-- **An exchange that goes with a session**, step by step from the beginning. -/
structure Tracks (x : Session σ) (e : Exchange) : Prop where
  reached : ∃ actions, Steps {} actions e
  client : e.client = x.client
  finished : e.finished = x.thread.isNone
  /-- A failure is the last thing that a thread sends. -/
  failure : ∀ thread, x.thread = some thread → thread ≠ .leaving → e.failure = none

/-- A session without a run goes with an exchange without one. -/
theorem tracks_new (source : Source σ) (config : Config) (state : σ) :
    Tracks { source, config, state } {} :=
  ⟨⟨[], .refl _⟩, rfl, rfl, nofun⟩

namespace Tracks

theorem sound (h : Tracks x e) : e.Sound :=
  have ⟨_, hsteps⟩ := h.reached
  Sound.steps (.new (by simp)) hsteps

theorem done_eq (h : Tracks x e) : x.client.done = x.thread.isNone := by
  rw [← h.client, h.sound.done_eq, h.finished]

/-- What may be done next has been done. -/
theorem extend {action : Action} (h : Tracks x e) (hstep : Step e action e') :
    ∃ actions, Steps {} actions e' := by
  obtain ⟨actions, hsteps⟩ := h.reached
  exact ⟨actions ++ [action], hsteps.append (.step hstep (.refl _))⟩

theorem extend_drains {stage : Stage} {soFar : List Chunk} {call : Call} (h : Tracks x e)
    (hdrains : Drains stage soFar e call e') : ∃ actions, Steps {} actions e' := by
  obtain ⟨actions, hsteps⟩ := h.reached
  obtain ⟨actions', -, hsteps'⟩ := hdrains.continues
  exact ⟨actions ++ actions', hsteps.append hsteps'⟩

theorem extend_works (h : Tracks x e) (hworks : Works e e') : ∃ actions, Steps {} actions e' := by
  obtain ⟨actions, hsteps⟩ := h.reached
  obtain ⟨actions', -, hsteps'⟩ := hworks
  exact ⟨actions ++ actions', hsteps.append hsteps'⟩

/-- Who else uses the device does not matter. -/
theorem withState (h : Tracks x e) (state : σ) : Tracks { x with state } e :=
  ⟨h.reached, h.client, h.finished, h.failure⟩

theorem post (h : Tracks x e) {thread : Thread} (hthread : x.thread = some thread)
    (hne : thread ≠ .leaving) (progress : Progress) :
    Tracks (x.post progress) (e.posted progress) ∧ Works e (e.posted progress) := by
  have hworking : e.finished = false := by rw [h.finished, hthread]; rfl
  have hsound : e.failure = none := h.failure thread hthread hne
  have hworks := works_posted hworking hsound progress
  refine ⟨?_, hworks⟩
  have hreached := h.extend_works hworks
  cases progress with
  | idle => exact h
  | delivered chunk next =>
    exact ⟨hreached, congrArg (Client.deliver · _) h.client, hworking, fun _ _ _ => hsound⟩
  | failed error =>
    refine ⟨hreached, congrArg (Client.deliver · _) h.client, hworking, ?_⟩
    rintro _ ⟨⟩ hleaving
    exact absurd rfl hleaving
  | stopped | completed => exact ⟨hreached, h.client, hworking, fun _ _ _ => hsound⟩

/-- **A turn of the thread is a step of the worker**, or none. -/
theorem turn (h : Tracks x e) : Tracks x.turn.2 (e.turned x) ∧ Works e (e.turned x) := by
  rw [turned]
  cases hthread : x.thread with
  | none =>
    rw [Session.turn_of_finished hthread]
    exact ⟨h, .refl e⟩
  | some thread =>
    cases thread with
    | engaged job =>
      rw [Session.turn_engaged hthread]
      dsimp only
      rcases Worker.begin x.source.toDevice x.config job x.state with ⟨error | w, s⟩
      · exact (h.withState s).post hthread nofun _
      · have hworking : e.finished = false := by rw [h.finished, hthread]; rfl
        exact ⟨⟨h.reached, h.client, hworking, fun _ _ _ => h.failure _ hthread nofun⟩, .refl e⟩
    | polling w =>
      rw [Session.turn_polling hthread]
      dsimp only
      rcases w.poll x.source.toDevice x.client.stopRequested x.state with ⟨progress, s⟩
      exact (h.withState s).post hthread nofun progress
    | leaving =>
      rw [Session.turn_leaving hthread]
      have hworking : e.finished = false := by rw [h.finished, hthread]; rfl
      have hworks : Works e e.left := (Works.refl _).step (.finish hworking) rfl
      exact ⟨⟨h.extend_works hworks, congrArg Client.finish h.client, rfl, nofun⟩, hworks⟩

/-- **Turns of the thread are steps of the worker.** -/
theorem turns (h : Tracks x e) (n : Nat) : ∃ e', Works e e' ∧ Tracks (x.turns n) e' := by
  induction n generalizing x e with
  | zero => exact ⟨e, .refl e, h⟩
  | succ n ih =>
    obtain ⟨hnext, hworks⟩ := h.turn
    obtain ⟨e', hrest, htracks⟩ := ih hnext
    exact ⟨e', hworks.trans hrest, htracks⟩

theorem settle (h : Tracks x e) : ∃ e', Works e e' ∧ Tracks x.settle e' := by
  obtain ⟨n, hn⟩ := x.settle_eq_turns
  rw [hn]
  exact h.turns n

/-! ### Calls of the client -/

/-- **A start that is accepted begins the record anew**, and one that is refused changes nothing. -/
theorem launch (h : Tracks x e) (job : Job) :
    match x.launch job with
    | (.ok (), y) => Step e .start fresh ∧ Tracks y fresh
    | (.error error, y) => x.client.start = .error error ∧ Step e .start e ∧ y = x := by
  rw [Session.launch]
  cases hstart : x.client.start with
  | error error => exact ⟨rfl, .refused (h.client ▸ hstart), rfl⟩
  | ok client =>
    have hstep : Step e .start { client, started := true, finished := false } :=
      .start (h.client ▸ hstart)
    have hfresh := start_eq_fresh hstart
    have hclient : fresh.client = client := by rw [← hfresh]
    rw [hfresh] at hstep
    exact ⟨hstep, h.extend hstep, hclient, rfl, fun _ _ _ => rfl⟩

theorem ask (h : Tracks x e) :
    Step e .stop { e with client := e.client.stop, stopped := e.started } ∧
      Tracks x.ask { e with client := e.client.stop, stopped := e.started } :=
  ⟨.stop e, h.extend (.stop e), congrArg Client.stop h.client, h.finished, h.failure⟩

/-- A client that has polled, once or several times. -/
theorem polled {client : Client} {polls : List (Except Error (List Chunk))} (h : Tracks x e)
    (hreached : ∃ actions, Steps {} actions (e.polled client polls)) :
    Tracks { x with client } (e.polled client polls) :=
  ⟨hreached, rfl, h.finished, h.failure⟩

theorem poll (h : Tracks x e) : Step e .poll (e.polled x.poll.2.client [x.poll.1]) ∧
    Tracks x.poll.2 (e.polled x.poll.2.client [x.poll.1]) := by
  have hstep : Step e .poll (e.polled x.poll.2.client [x.poll.1]) := by
    have hstep := Step.poll e
    rwa [h.client] at hstep
  exact ⟨hstep, h.polled (h.extend hstep)⟩

/-- **A start in a session**: a start of the exchange, and steps of the worker behind it. -/
theorem start (h : Tracks x e) (job : Job) :
    match x.start job with
    | (.ok (), y) => ∃ e', Step e .start fresh ∧ Works fresh e' ∧ Tracks y e'
    | (.error error, y) => x.client.start = .error error ∧ Step e .start e ∧ y = x := by
  have hlaunch := h.launch job
  rw [Session.start]
  generalize x.launch job = launched at hlaunch ⊢
  rcases launched with ⟨error | _, y⟩
  · exact hlaunch
  · obtain ⟨e', hworks, htracks⟩ := hlaunch.2.settle
    exact ⟨e', hlaunch.1, hworks, htracks⟩

/-- **A request to stop in a session**: the worker finishes behind it. -/
theorem stop (h : Tracks x e) : ∃ e₁ e', Step e .stop e₁ ∧ Works e₁ e' ∧ Tracks x.stop e' ∧
    x.stop.thread = none := by
  obtain ⟨hstep, hask⟩ := h.ask
  obtain ⟨e', hworks, htracks⟩ := hask.settle
  refine ⟨_, e', hstep, hworks, htracks, ?_⟩
  cases hthread : x.ask.thread with
  | none => rw [Session.stop, Session.settle, hthread, hthread]
  | some thread =>
    -- A thread belongs to a run, and the run has been asked to stop.
    have hworking : e.finished = false := by
      rw [h.finished, show x.thread = some thread from hthread]
      rfl
    have hstarted : e.started = true := by
      cases h.sound with
      | new => cases hworking
      | running started => exact started
    have hstop : x.ask.client.stopRequested = true := by
      rw [← hask.client, hask.sound.stopRequested_eq]
      exact hstarted
    exact Session.thread_settle hstop

/-- **Draining in a session is draining in an exchange.**  If the worker is found at work, it is
asked to stop and finishes. -/
theorem drain (h : Tracks x e) : ∃ polls e', Drains .head [] e ⟨polls, x.drain.1⟩ e' ∧
    Tracks x.drain.2 e' := by
  have hround := drainRound_drains e []
  rw [h.client] at hround
  rw [Session.drain]
  generalize x.client.drainRound [] = step at hround ⊢
  rcases step with ⟨answer | taken, client⟩
  · -- The worker has been found finished.
    obtain ⟨polls, hdrains⟩ := hround
    exact ⟨polls, _, hdrains, h.polled (h.extend_drains hdrains)⟩
  · obtain ⟨poll, hstep, hrest⟩ := hround
    obtain ⟨e₁, e₂, hstop, hworks, htracks, hfinished⟩ := (h.polled (h.extend hstep)).stop
    dsimp only
    generalize ({ x with client } : Session σ).stop = y at htracks hfinished ⊢
    have hsecond := drainRound_drains e₂ taken
    rw [htracks.client] at hsecond
    have hdone : y.client.done = true := by
      rw [htracks.done_eq, hfinished]
      rfl
    obtain ⟨answer, client', hover⟩ := Client.drainRound_of_done hdone taken
    rw [hover] at hsecond ⊢
    obtain ⟨polls, hdrains⟩ := hsecond
    exact ⟨poll :: polls, _, hrest _ _ (.stop hstop (hworks.drains hdrains)),
      htracks.polled (htracks.extend_drains hdrains)⟩

end Tracks

/-! ### Sessions in use -/

/-- **A session in use**: the client makes its calls, the thread has its turns and others use the
device, in any order. -/
inductive Session.InUse : Session σ → Prop
  | new (source : Source σ) (config : Config) (state : σ) : InUse { source, config, state }
  | turn {y} (h : InUse y) : InUse y.turn.2
  | launch {y} (h : InUse y) (job : Job) : InUse (y.launch job).2
  | ask {y} (h : InUse y) : InUse y.ask
  | poll {y} (h : InUse y) : InUse y.poll.2
  | start {y} (h : InUse y) (job : Job) : InUse (y.start job).2
  | stop {y} (h : InUse y) : InUse y.stop
  | drain {y} (h : InUse y) : InUse y.drain.2
  | withState {y} {α : Type} (h : InUse y) (step : σ → α × σ) : InUse (y.withState step).2

/-- **A session in use always goes with an exchange.** -/
theorem Session.InUse.tracks (h : x.InUse) : ∃ e, Tracks x e := by
  induction h with
  | new source config state => exact ⟨{}, tracks_new source config state⟩
  | turn _ ih =>
    obtain ⟨e, htracks⟩ := ih
    exact ⟨_, htracks.turn.1⟩
  | @launch x _ job ih =>
    obtain ⟨e, htracks⟩ := ih
    have hlaunch := htracks.launch job
    rcases hlaunched : x.launch job with ⟨error | _, y⟩
    · rw [hlaunched] at hlaunch
      obtain ⟨-, -, rfl⟩ := hlaunch
      exact ⟨e, htracks⟩
    · rw [hlaunched] at hlaunch
      exact ⟨_, hlaunch.2⟩
  | ask _ ih =>
    obtain ⟨e, htracks⟩ := ih
    exact ⟨_, htracks.ask.2⟩
  | poll _ ih =>
    obtain ⟨e, htracks⟩ := ih
    exact ⟨_, htracks.poll.2⟩
  | @start x _ job ih =>
    obtain ⟨e, htracks⟩ := ih
    have hstart := htracks.start job
    rcases hstarted : x.start job with ⟨error | _, y⟩
    · rw [hstarted] at hstart
      obtain ⟨-, -, rfl⟩ := hstart
      exact ⟨e, htracks⟩
    · rw [hstarted] at hstart
      obtain ⟨e', -, -, htracks'⟩ := hstart
      exact ⟨e', htracks'⟩
  | stop _ ih =>
    obtain ⟨e, htracks⟩ := ih
    obtain ⟨_, e', -, -, htracks', -⟩ := htracks.stop
    exact ⟨e', htracks'⟩
  | drain _ ih =>
    obtain ⟨e, htracks⟩ := ih
    obtain ⟨_, e', -, htracks'⟩ := htracks.drain
    exact ⟨e', htracks'⟩
  | @withState x α _ step ih =>
    obtain ⟨e, htracks⟩ := ih
    obtain ⟨e', -, htracks'⟩ := (htracks.withState (step x.state).2).settle
    exact ⟨e', htracks'⟩

end PulseProcessor.Readout
