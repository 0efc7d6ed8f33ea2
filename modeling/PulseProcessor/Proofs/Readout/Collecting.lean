import PulseProcessor.Proofs.Readout.Delivery

/-! # Draining until the end

Draining polls until the worker has finished, and the worker goes on meanwhile.  It may take steps
before and behind every look at its end and every poll (`Drains`); `Client.drainRound` is a round in
which it takes none (`drainRound_drains`).

A caller sees the answers of calls, not those of the polls that draining makes (`Call`).  As long as
no call fails, the answers of the calls carry what the polls have taken.  A call of draining that
fails tells the failure instead of the chunks it has taken itself, and no later call returns them
(`drain_accounts`, `drain_loses`).
-/

namespace PulseProcessor.Readout

/-! ### Calls -/

/-- A call that takes chunks: a poll, or draining. -/
structure Call where
  /-- The answers of the polls that it has made, the oldest first. -/
  polls : List (Except Error (List Chunk))
  /-- What the caller has been answered. -/
  answer : Except Error (List Chunk)

/-- The chunks that a call has taken and does not return. -/
def Call.lost (call : Call) : List Chunk :=
  match call.answer with
  | .ok _ => []
  | .error _ => taken call.polls

/-- The chunks that calls have returned. -/
def returned (calls : List Call) : List Chunk := taken (calls.map (·.answer))

/-- The chunks that calls have taken and not returned. -/
def lost (calls : List Call) : List Chunk := calls.flatMap Call.lost

variable {calls more : List Call} {call : Call} {soFar chunks : List Chunk} {e : Error}

@[simp] theorem returned_nil : returned [] = [] := rfl

@[simp] theorem returned_cons (call : Call) (calls : List Call) :
    returned (call :: calls) = taken [call.answer] ++ returned calls :=
  taken_append [call.answer] _

@[simp] theorem returned_append (calls more : List Call) :
    returned (calls ++ more) = returned calls ++ returned more := by
  rw [returned, List.map_append, taken_append]
  rfl

@[simp] theorem lost_cons (call : Call) (calls : List Call) :
    lost (call :: calls) = call.lost ++ lost calls := rfl

/-- What a call answers, given the chunks that it has taken before the polls. -/
def Call.Made (soFar : List Chunk) (call : Call) : Prop :=
  match call.answer with
  | .ok chunks => chunks = soFar ++ taken call.polls
  | .error e => ∃ before, call.polls = before ++ [.error e]

theorem Call.Made.took (h : call.Made (soFar ++ chunks)) :
    Call.Made soFar ⟨.ok chunks :: call.polls, call.answer⟩ := by
  rcases call with ⟨polls, e | all⟩
  · obtain ⟨before, hpolls⟩ := h
    exact ⟨.ok chunks :: before, congrArg (_ :: ·) hpolls⟩
  · have hall : all = soFar ++ chunks ++ taken polls := h
    exact hall.trans (List.append_assoc ..)

theorem made_poll (answer : Except Error (List Chunk)) : Call.Made [] ⟨[answer], answer⟩ := by
  cases answer with
  | ok chunks => exact (List.append_nil chunks).symm
  | error e => exact ⟨[], rfl⟩

/-- **What a call has taken it returns or loses.** -/
theorem Call.Made.taken_polls (h : call.Made []) :
    taken call.polls = taken [call.answer] ++ call.lost := by
  rcases call with ⟨polls, e | chunks⟩
  · rfl
  · have hchunks : chunks = taken polls := h
    rw [Call.lost, taken_ok, ← hchunks, taken_nil, List.append_nil, List.append_nil]

/-- Where draining stands. -/
inductive Stage where
  /-- At the head of a round. -/
  | head
  /-- It has been looked whether the worker has finished. -/
  | looked (finished : Bool)
  /-- The worker had finished, and there has been a poll since. -/
  | last

/-- The worker's steps. -/
def Action.ofWorker : Action → Bool
  | send _ | fail _ | finish => true
  | start | stop | poll => false

namespace Exchange

variable {x y z : Exchange} {action : Action} {stage : Stage}

/-- **Draining**, from a stage on and behind chunks that it has taken so far, with steps of the
worker at any time.  Once the deadline has passed, the worker is asked to stop. -/
inductive Drains : Stage → List Chunk → Exchange → Call → Exchange → Prop
  | work {stage : Stage} {soFar : List Chunk} {x y z : Exchange} {action : Action} {call : Call}
      (head : Step x action y) (worker : action.ofWorker = true)
      (rest : Drains stage soFar y call z) : Drains stage soFar x call z
  | stop {soFar : List Chunk} {x y z : Exchange} {call : Call} (head : Step x .stop y)
      (rest : Drains .head soFar y call z) : Drains .head soFar x call z
  | look {soFar : List Chunk} {x z : Exchange} {call : Call}
      (rest : Drains (.looked x.client.done) soFar x call z) : Drains .head soFar x call z
  | failed {stage : Stage} {soFar : List Chunk} {x y : Exchange} {e : Error}
      (looked : stage ≠ .head) (head : Step x .poll y) (told : x.client.poll.1 = .error e) :
      Drains stage soFar x ⟨[.error e], .error e⟩ y
  | took {finished : Bool} {soFar chunks : List Chunk} {x y z : Exchange}
      {polls : List (Except Error (List Chunk))} {answer : Except Error (List Chunk)}
      (head : Step x .poll y) (told : x.client.poll.1 = .ok chunks)
      (rest : Drains (if finished then .last else .head) (soFar ++ chunks) y ⟨polls, answer⟩ z) :
      Drains (.looked finished) soFar x ⟨.ok chunks :: polls, answer⟩ z
  | closed {soFar chunks : List Chunk} {x y : Exchange} (head : Step x .poll y)
      (told : x.client.poll.1 = .ok chunks) :
      Drains .last soFar x ⟨[.ok chunks], .ok (soFar ++ chunks)⟩ y

/-- **Calls of a client during one run**, the worker being at work between them and within. -/
inductive Calls : Exchange → List Call → Exchange → Prop
  | refl (x : Exchange) : Calls x [] x
  | quiet {x y z : Exchange} {action : Action} {calls : List Call} (head : Step x action y)
      (quiet : action.ofWorker = true ∨ action = .stop) (rest : Calls y calls z) : Calls x calls z
  | poll {x y z : Exchange} {calls : List Call} (head : Step x .poll y) (rest : Calls y calls z) :
      Calls x (⟨[x.client.poll.1], x.client.poll.1⟩ :: calls) z
  | drain {x y z : Exchange} {call : Call} {calls : List Call} (head : Drains .head [] x call y)
      (rest : Calls y calls z) : Calls x (call :: calls) z

/-- The exchange when a poll has been answered, or several have. -/
def polled (x : Exchange) (client : Client) (polls : List (Except Error (List Chunk))) : Exchange :=
  { x with client, answers := x.answers ++ polls }

/-- **A round without a step of the worker.** -/
theorem drainRound_drains (x : Exchange) (soFar : List Chunk) :
    match x.client.drainRound soFar with
    | (.over answer, client) =>
      ∃ polls, Drains .head soFar x ⟨polls, answer⟩ (x.polled client polls)
    | (.goesOn soFar', client) => ∃ poll, Step x .poll (x.polled client [poll]) ∧
      ∀ call z, Drains .head soFar' (x.polled client [poll]) call z →
        Drains .head soFar x ⟨poll :: call.polls, call.answer⟩ z := by
  unfold Client.drainRound
  rcases hpoll : x.client.poll with ⟨e | chunks, client⟩
  · have htold : x.client.poll.1 = .error e := by rw [hpoll]
    refine ⟨[.error e], .look ?_⟩
    have hstep := Step.poll x
    rw [hpoll] at hstep
    exact .failed (fun h => nomatch h) hstep htold
  have htold : x.client.poll.1 = .ok chunks := by rw [hpoll]
  have hstep : Step x .poll (x.polled client [.ok chunks]) := by
    have hstep := Step.poll x
    rwa [hpoll] at hstep
  dsimp only
  cases hdone : x.client.done with
  | false =>
    refine ⟨.ok chunks, hstep, fun call z hrest => .look ?_⟩
    rw [hdone]
    exact .took hstep htold hrest
  | true =>
    rw [if_pos rfl]
    have hlast {call : Call} {z : Exchange}
        (hrest : Drains .last (soFar ++ chunks) (x.polled client [.ok chunks]) call z) :
        Drains .head soFar x ⟨.ok chunks :: call.polls, call.answer⟩ z :=
      .look (hdone ▸ .took hstep htold hrest)
    have hsecond := Step.poll (x.polled client [.ok chunks])
    rw [polled, List.append_assoc] at hsecond
    dsimp only at hsecond
    rcases hagain : client.poll with ⟨e | more, client'⟩
    · rw [hagain] at hsecond
      exact ⟨[.ok chunks, .error e],
        hlast (.failed (fun h => nomatch h) hsecond (congrArg Prod.fst hagain))⟩
    · rw [hagain] at hsecond
      exact ⟨[.ok chunks, .ok more], hlast (.closed hsecond (congrArg Prod.fst hagain))⟩

/-! ### Steps of a run -/

/-- **The same run goes on** from `x` to `y`. -/
def Continues (x y : Exchange) : Prop := ∃ actions, .start ∉ actions ∧ Steps x actions y

theorem Continues.refl (x : Exchange) : Continues x x := ⟨[], by simp, .refl x⟩

theorem Continues.step (head : Step x action y) (hstart : action ≠ .start)
    (rest : Continues y z) : Continues x z := by
  obtain ⟨actions, hnone, hsteps⟩ := rest
  exact ⟨action :: actions, by simp [hstart.symm, hnone], .step head hsteps⟩

theorem Continues.sound (h : Continues x y) (hx : x.Sound) : y.Sound :=
  have ⟨_, _, hsteps⟩ := h
  hx.steps hsteps

theorem Step.of_worker (h : Step x action y) (hworker : action.ofWorker = true) :
    action ≠ .start ∧ x.finished = false ∧ y.answers = x.answers := by
  cases h with
  | send working => exact ⟨nofun, working, rfl⟩
  | fail working => exact ⟨nofun, working, rfl⟩
  | finish working => exact ⟨nofun, working, rfl⟩
  | start => cases hworker
  | refused => cases hworker
  | stop => cases hworker
  | poll => cases hworker

theorem Step.poll_answers (h : Step x .poll y) : y.answers = x.answers ++ [x.client.poll.1] := by
  cases h
  rfl

theorem Step.poll_finished (h : Step x .poll y) : y.finished = x.finished := by
  cases h
  rfl

theorem Step.stop_answers (h : Step x .stop y) : y.answers = x.answers := by
  cases h
  rfl

namespace Drains

theorem continues (h : Drains stage soFar x call y) : Continues x y := by
  induction h with
  | work head worker _ ih => exact ih.step head (head.of_worker worker).1
  | stop head _ ih => exact ih.step head nofun
  | look _ ih => exact ih
  | failed _ head => exact (Continues.refl _).step head nofun
  | took head _ _ ih => exact ih.step head nofun
  | closed head => exact (Continues.refl _).step head nofun

/-- **The answer of draining** follows from those of its polls. -/
theorem made (h : Drains stage soFar x call y) :
    y.answers = x.answers ++ call.polls ∧ call.Made soFar := by
  induction h with
  | work head worker _ ih => rwa [(head.of_worker worker).2.2] at ih
  | stop head _ ih => rwa [head.stop_answers] at ih
  | look _ ih => exact ih
  | failed _ head told =>
    refine ⟨?_, [], rfl⟩
    rw [head.poll_answers, told]
  | took head told _ ih =>
    obtain ⟨hanswers, hmade⟩ := ih
    refine ⟨?_, hmade.took⟩
    rw [hanswers, head.poll_answers, told, List.append_assoc]
    rfl
  | closed head told =>
    refine ⟨?_, ?_⟩
    · rw [head.poll_answers, told]
    · show _ = _ ++ (_ ++ [])
      rw [List.append_nil]

end Drains

/-- What is known at a stage: the worker has been found finished, and of the two polls that catch up
with it one has been made. -/
def Holds (x : Exchange) : Stage → Prop
  | .head => True
  | .looked finished => finished = true → x.finished = true
  | .last => x.finished = true ∧ x.CaughtUp 1

/-- **Draining returns chunks only when the worker has finished** and two polls have caught up with
it. -/
theorem Drains.ended (h : Drains stage soFar x call y) (hx : x.Sound) (hstage : x.Holds stage)
    (hok : call.answer = .ok chunks) : y.finished = true ∧ y.CaughtUp 2 := by
  induction h with
  | @work stage soFar x y z action call head worker rest ih =>
    refine ih (hx.step head) ?_ hok
    -- The worker is still at work, so draining has not found it finished.
    have hworking := (head.of_worker worker).2.1
    cases stage with
    | head => trivial
    | looked finished =>
      intro hfinished
      rw [hstage hfinished] at hworking
      cases hworking
    | last =>
      rw [hstage.1] at hworking
      cases hworking
  | stop head rest ih => exact ih (hx.step head) trivial hok
  | look rest ih => exact ih hx (fun hdone => hx.done_eq.symm.trans hdone) hok
  | failed => cases hok
  | @took finished soFar chunks x y z polls answer head told rest ih =>
    refine ih (hx.step head) ?_ hok
    cases finished with
    | false => trivial
    | true =>
      exact ⟨head.poll_finished.trans (hstage rfl),
        hx.poll_caughtUp (show x.CaughtUp 0 from trivial) head⟩
  | closed head told =>
    exact ⟨head.poll_finished.trans hstage.1, hx.poll_caughtUp hstage.2 head⟩

/-! ### When nothing is to come -/

theorem Sound.taken_prefix (h : x.Sound) : taken x.answers <+: x.sent := by
  cases h with
  | new nothing => exact ⟨[], by rw [taken_eq_nil nothing]; rfl⟩
  | running started run underway => exact underway.taken_prefix

theorem Sound.of_error (h : x.Sound) {before after : List (Except Error (List Chunk))}
    (hanswers : x.answers = before ++ .error e :: after) :
    x.failure = some e ∧ taken before = x.sent ∧ failures before = [] ∧
      ∀ answer ∈ after, answer = .ok [] := by
  cases h with
  | @new answers nothing =>
    have hmem : .error e ∈ answers := by
      rw [show answers = before ++ .error e :: after from hanswers]
      simp
    cases nothing _ hmem
  | running started run underway => exact underway.of_error hanswers

/-- **Everything has been taken**, and the worker sends nothing more. -/
structure Settled (x : Exchange) : Prop where
  all_taken : taken x.answers = x.sent
  silent : x.finished = true ∨ x.failure ≠ none

/-- **Once a failure has been told, everything has been taken.** -/
theorem Sound.settled_of_told (h : x.Sound) (htold : failures x.answers ≠ []) : x.Settled := by
  cases h with
  | new nothing => exact absurd (failures_eq_nil nothing) htold
  | running started run underway =>
    generalize x.client.pending = pending at underway
    cases underway with
    | flowing unread sent_eq untold => exact absurd untold htold
    | held failed sent_eq untold => exact absurd untold htold
    | told failed answers_eq sent_eq untold nothing =>
      refine ⟨?_, .inr (by rw [failed]; exact nofun)⟩
      rw [answers_eq, taken_append, taken_error, sent_eq, taken_eq_nil nothing, List.append_nil]

theorem Settled.step (h : x.Settled) (hy : y.Sound) (hstep : Step x action y)
    (hstart : action ≠ .start) : y.Settled ∧ y.sent = x.sent := by
  have hsilent : ¬ (x.finished = false ∧ x.failure = none) := fun ⟨hworking, hsound⟩ =>
    h.silent.elim (fun hfinished => by rw [hworking] at hfinished; cases hfinished) (· hsound)
  cases hstep with
  | start => exact absurd rfl hstart
  | refused => exact absurd rfl hstart
  | stop => exact ⟨⟨h.all_taken, h.silent⟩, rfl⟩
  | poll =>
    -- There is nothing left that the poll might take.
    have hall : taken (x.answers ++ [x.client.poll.1]) <+: x.sent := hy.taken_prefix
    refine ⟨⟨hall.eq_of_length_le ?_, h.silent⟩, rfl⟩
    rw [taken_append, List.length_append, h.all_taken]
    exact Nat.le_add_right ..
  | send working sound => exact absurd ⟨working, sound⟩ hsilent
  | fail working sound => exact absurd ⟨working, sound⟩ hsilent
  | finish working => exact ⟨⟨h.all_taken, .inl rfl⟩, rfl⟩

theorem Settled.continues (h : x.Settled) (hx : x.Sound) (hxy : Continues x y) :
    y.Settled ∧ y.sent = x.sent := by
  obtain ⟨actions, hstart, hsteps⟩ := hxy
  induction hsteps with
  | refl => exact ⟨h, rfl⟩
  | step head tail ih =>
    rw [List.mem_cons, not_or] at hstart
    have hy := hx.step head
    obtain ⟨hsettled, hsent⟩ := h.step hy head (Ne.symm hstart.1)
    obtain ⟨hend, heq⟩ := ih hsettled hy hstart.2
    exact ⟨hend, heq.trans hsent⟩

/-! ### Calls of a run -/

/-- A call that has been made between `x` and `y`. -/
structure Makes (x : Exchange) (call : Call) (y : Exchange) : Prop where
  continues : Continues x y
  answers : y.answers = x.answers ++ call.polls
  made : call.Made []

theorem Drains.makes (h : Drains .head [] x call y) : Makes x call y :=
  ⟨h.continues, h.made.1, h.made.2⟩

theorem Step.makes (h : Step x .poll y) : Makes x ⟨[x.client.poll.1], x.client.poll.1⟩ y :=
  ⟨(Continues.refl y).step h nofun, h.poll_answers, made_poll _⟩

theorem Makes.taken_answers (h : Makes x call y) :
    taken y.answers = taken x.answers ++ (taken [call.answer] ++ call.lost) := by
  rw [h.answers, taken_append, h.made.taken_polls]

/-- **A call that fails is the first one**, and there is nothing left behind it. -/
theorem Makes.failed (h : Makes x call y) (hx : x.Sound) (hfails : call.answer = .error e) :
    y.failure = some e ∧ failures x.answers = [] ∧ failures y.answers ≠ [] := by
  have hmade := h.made
  rw [Call.Made, hfails] at hmade
  obtain ⟨before, hpolls⟩ := hmade
  have hanswers : y.answers = (x.answers ++ before) ++ .error e :: [] := by
    rw [h.answers, hpolls, List.append_assoc]
  obtain ⟨hfailure, -, huntold, -⟩ := (h.continues.sound hx).of_error hanswers
  rw [failures_append] at huntold
  exact ⟨hfailure, (List.append_eq_nil_iff.1 huntold).1, by simp [hanswers]⟩

theorem Makes.lost_or_told (h : Makes x call y) (hx : x.Sound) :
    call.lost = [] ∨ failures y.answers ≠ [] := by
  rcases hanswer : call.answer with e | chunks
  · exact .inr (h.failed hx hanswer).2.2
  · exact .inl (by rw [Call.lost, hanswer])

/-- Once everything has been taken, a call returns nothing. -/
theorem Makes.nothing (h : Makes x call y) (hx : x.Sound) (hsettled : x.Settled) :
    taken [call.answer] = [] ∧ call.lost = [] := by
  obtain ⟨hend, hsent⟩ := hsettled.continues hx h.continues
  have htaken := h.taken_answers
  rw [hend.all_taken, hsent, hsettled.all_taken] at htaken
  exact List.append_eq_nil_iff.1 (List.append_right_eq_self.1 htaken.symm)

namespace Calls

/-- A run of calls goes on by calls, and by steps between them that take nothing. -/
theorem induction {motive : Exchange → List Call → Exchange → Prop} (h : Calls x calls y)
    (refl : ∀ x, motive x [] x)
    (quiet : ∀ {x y z calls}, Continues x y → y.answers = x.answers → motive y calls z →
      motive x calls z)
    (call : ∀ {x y z call calls}, Makes x call y → Calls y calls z → motive y calls z →
      motive x (call :: calls) z) :
    motive x calls y := by
  induction h with
  | refl => exact refl _
  | quiet head hquiet _ ih =>
    rcases hquiet with hworker | rfl
    · obtain ⟨hstart, -, hanswers⟩ := head.of_worker hworker
      exact quiet ((Continues.refl _).step head hstart) hanswers ih
    · exact quiet ((Continues.refl _).step head nofun) head.stop_answers ih
  | poll head rest ih => exact call head.makes rest ih
  | drain head rest ih => exact call head.makes rest ih

/-- **Once everything has been taken, no call returns anything.** -/
theorem nothing (h : Calls x calls y) (hx : x.Sound) (hsettled : x.Settled) :
    y.sent = x.sent ∧ returned calls = [] ∧ lost calls = [] := by
  refine h.induction (motive := fun x calls y => x.Sound → x.Settled →
    y.sent = x.sent ∧ returned calls = [] ∧ lost calls = [])
    (fun _ _ _ => ⟨rfl, rfl, rfl⟩) ?_ ?_ hx hsettled
  · intro x y z calls hxy _ ih hx hsettled
    obtain ⟨hy, hsent⟩ := hsettled.continues hx hxy
    obtain ⟨hrest, hnothing⟩ := ih (hxy.sound hx) hy
    exact ⟨hrest.trans hsent, hnothing⟩
  · intro x y z call calls hmakes _ ih hx hsettled
    obtain ⟨hy, hsent⟩ := hsettled.continues hx hmakes.continues
    obtain ⟨hrest, hreturned, hlost⟩ := ih (hmakes.continues.sound hx) hy
    obtain ⟨hanswer, hcall⟩ := hmakes.nothing hx hsettled
    exact ⟨hrest.trans hsent, by rw [returned_cons, hanswer, hreturned, List.append_nil],
      by rw [lost_cons, hcall, hlost, List.append_nil]⟩

/-- **What the calls of a run have taken they have returned**, and behind that perhaps lost. -/
theorem account (h : Calls x calls y) (hx : x.Sound) :
    y.Sound ∧ failures x.answers <+: failures y.answers ∧
      taken y.answers = taken x.answers ++ (returned calls ++ lost calls) ∧
      (lost calls = [] ∨ failures y.answers ≠ []) := by
  refine h.induction (motive := fun x calls y => x.Sound →
    y.Sound ∧ failures x.answers <+: failures y.answers ∧
      taken y.answers = taken x.answers ++ (returned calls ++ lost calls) ∧
      (lost calls = [] ∨ failures y.answers ≠ []))
    (fun _ hx => ⟨hx, List.prefix_rfl, (List.append_nil _).symm, .inl rfl⟩) ?_ ?_ hx
  · intro x y z calls hxy hanswers ih hx
    rw [← hanswers]
    exact ih (hxy.sound hx)
  · intro x y z call calls hmakes hcalls ih hx
    have hy := hmakes.continues.sound hx
    obtain ⟨hz, hmore, htaken, hlost⟩ := ih hy
    refine ⟨hz, ?_, ?_, ?_⟩
    · refine List.IsPrefix.trans ?_ hmore
      rw [hmakes.answers, failures_append]
      exact List.prefix_append ..
    · rw [htaken, hmakes.taken_answers, returned_cons, lost_cons]
      rcases hmakes.lost_or_told hx with hnone | htold
      · rw [hnone]
        simp
      · -- A failure has been told, and the calls behind it return nothing.
        obtain ⟨-, hreturned, hlost⟩ := hcalls.nothing hy (hy.settled_of_told htold)
        rw [hreturned, hlost]
        simp
    · rcases hmakes.lost_or_told hx with hnone | htold
      · rwa [lost_cons, hnone, List.nil_append]
      · exact .inr fun hempty => htold (List.prefix_nil.1 (hempty ▸ hmore))

end Calls

/-! ### A whole run -/

/-- A client whose run has just been started. -/
def fresh : Exchange := { client := { run := some {} }, started := true, finished := false }

theorem sound_fresh : fresh.Sound :=
  .running rfl rfl (show Underway [] none [] [] none from .flowing [] rfl rfl)

/-- Whatever has been before, a run begins afresh. -/
theorem start_eq_fresh {client client' : Client} (h : client.start = .ok client') :
    { client := client', started := true, finished := false } = fresh := by
  unfold Client.start at h
  split at h
  · cases h
  · cases h
    rfl

/-- **Draining returns all chunks, or loses those it has taken itself.**  However the worker's steps
lie between the calls of a client and within them, from the start of a run on: if draining returns
chunks, the worker has finished, and all that it has sent has been returned by this call and by
those before it, but for what a call of draining that failed before has lost.  If draining fails,
the failure is the one that the worker has sent; of the chunks that the worker has sent in front of
it, the calls before have returned those that draining has not taken, and those it has taken are
lost.  Either way the worker sends nothing more, and no later call of the run returns a chunk. -/
theorem drain_accounts {before : Exchange} {client : Client}
    (hstart : before.client.start = .ok client)
    (hcalls : Calls { client, started := true, finished := false } calls x)
    (hdrain : Drains .head [] x call y) :
    (∀ chunks, call.answer = .ok chunks →
      y.finished = true ∧ y.sent = returned (calls ++ [call]) ++ lost calls) ∧
    (∀ e, call.answer = .error e →
      y.failure = some e ∧ lost calls = [] ∧ y.sent = returned calls ++ taken call.polls) ∧
    ∀ more z, Calls y more z → z.sent = y.sent ∧ returned more = [] := by
  rw [start_eq_fresh hstart] at hcalls
  obtain ⟨hx, -, htaken, hlost⟩ := hcalls.account sound_fresh
  have htaken : taken x.answers = returned calls ++ lost calls := htaken
  have hmakes := hdrain.makes
  have hy := hdrain.continues.sound hx
  rcases hanswer : call.answer with e | chunks
  · obtain ⟨hfailure, hfirst, htold⟩ := hmakes.failed hx hanswer
    have hsettled := hy.settled_of_told htold
    have hnone : lost calls = [] := hlost.resolve_right fun h => h hfirst
    refine ⟨nofun, ?_, fun more z hmore => ?_⟩
    · rintro e' ⟨⟩
      refine ⟨hfailure, hnone, ?_⟩
      rw [← hsettled.all_taken, hmakes.answers, taken_append, htaken, hnone, List.append_nil]
    · obtain ⟨hsent, hreturned, -⟩ := hmore.nothing hy hsettled
      exact ⟨hsent, hreturned⟩
  · obtain ⟨hfinished, hcaught⟩ := hdrain.ended hx trivial hanswer
    have hsettled : y.Settled := ⟨(hy.settled hcaught).1, .inl hfinished⟩
    refine ⟨?_, nofun, fun more z hmore => ?_⟩
    · rintro chunks' ⟨⟩
      have hall := hmakes.taken_answers
      rw [hsettled.all_taken, htaken, Call.lost, hanswer, List.append_nil] at hall
      refine ⟨hfinished, ?_⟩
      rw [hall, returned_append, returned_cons, hanswer, returned_nil, List.append_nil]
      rcases hlost with hnone | htold
      · rw [hnone]
        simp
      · -- After a failure there has been nothing to return.
        have hnothing := (hmakes.nothing hx (hx.settled_of_told htold)).1
        rw [hanswer] at hnothing
        rw [hnothing]
        simp
    · obtain ⟨hsent, hreturned, -⟩ := hmore.nothing hy hsettled
      exact ⟨hsent, hreturned⟩

/-- The samples behind those of `firstChunk`. -/
def secondChunk : Chunk :=
  { count := 4, address := 2, length := 2, samples := [[⟨3, -3⟩, ⟨4, -4⟩]] }

/-- Draining takes the second chunk, then finds that a transfer has failed, and loses it; once more
it returns nothing. -/
theorem drain_accounts_timeout : ∃ x y z,
    Calls fresh [⟨[.ok [firstChunk]], .ok [firstChunk]⟩] x ∧
    Drains .head [] x ⟨[.ok [secondChunk], .error (.hardwareTimeout 5)],
      .error (.hardwareTimeout 5)⟩ y ∧
    Drains .head [] y ⟨[.ok [], .ok []], .ok []⟩ z ∧
    y.failure = some (.hardwareTimeout 5) ∧ y.sent = [firstChunk, secondChunk] ∧
    z.finished = true ∧ z.sent = [firstChunk] ++ [secondChunk] ∧
    ∀ more z', Calls z more z' → returned more = [] := by
  let x : Exchange := { fresh with sent := [firstChunk], answers := [.ok [firstChunk]] }
  let y : Exchange := { fresh with
    sent := [firstChunk, secondChunk]
    failure := some (.hardwareTimeout 5)
    answers := [.ok [firstChunk], .ok [secondChunk], .error (.hardwareTimeout 5)] }
  let z : Exchange := { y with
    client := { run := some { stopRequested := true, done := true } }
    finished := true
    stopped := true
    answers := y.answers ++ [.ok [], .ok []] }
  have hcalls : Calls fresh [⟨[.ok [firstChunk]], .ok [firstChunk]⟩] x :=
    .quiet (.send rfl rfl firstChunk) (.inl rfl) (.poll (.poll _) (.refl _))
  have hdrain : Drains .head [] x ⟨[.ok [secondChunk], .error (.hardwareTimeout 5)],
      .error (.hardwareTimeout 5)⟩ y := by
    refine .look (.work (.send rfl rfl secondChunk) rfl ?_)
    refine .took (.poll _) rfl ?_
    refine .work (.fail rfl rfl (.hardwareTimeout 5)) rfl (.look ?_)
    exact .failed (fun h => nomatch h) (.poll _) rfl
  have hagain : Drains .head [] y ⟨[.ok [], .ok []], .ok []⟩ z := by
    refine .stop (.stop _) (.work (.finish rfl) rfl (.look ?_))
    refine .took (.poll _) rfl ?_
    exact .closed (.poll _) rfl
  have hmore : Calls fresh [⟨[.ok [firstChunk]], .ok [firstChunk]⟩,
      ⟨[.ok [secondChunk], .error (.hardwareTimeout 5)], .error (.hardwareTimeout 5)⟩] y :=
    .quiet (.send rfl rfl firstChunk) (.inl rfl) (.poll (.poll _) (.drain hdrain (.refl _)))
  have hstart : ({} : Exchange).client.start = .ok { run := some {} } := rfl
  obtain ⟨-, hfailed, -⟩ := drain_accounts hstart hcalls hdrain
  obtain ⟨hfailure, -, hsent⟩ := hfailed _ rfl
  obtain ⟨hended, -, hnothing⟩ := drain_accounts hstart hmore hagain
  exact ⟨x, y, z, hcalls, hdrain, hagain, hfailure, hsent, (hended _ rfl).1, (hended _ rfl).2,
    fun more z' h => (hnothing more z' h).2⟩

/-- **Draining that loses a chunk.**  The worker has sent a chunk, then failed and finished before
the client first looks; draining tells the failure, and no later call of the run returns the
chunk. -/
theorem drain_loses : ∃ x call y,
    Steps fresh [.send firstChunk, .fail (.hardwareTimeout 5), .finish] x ∧
    Drains .head [] x call y ∧ y.sent = [firstChunk] ∧ returned [call] = [] ∧
    ∀ more z, Calls y more z → returned more = [] := by
  let x : Exchange := { fresh with
    client := { run := some {
      queue := [.chunk firstChunk, .failure (.hardwareTimeout 5)]
      done := true } }
    finished := true
    sent := [firstChunk]
    failure := some (.hardwareTimeout 5) }
  let y : Exchange := { x with
    client := { run := some { done := true } }
    answers := [.ok [firstChunk], .error (.hardwareTimeout 5)] }
  have hsteps : Steps fresh [.send firstChunk, .fail (.hardwareTimeout 5), .finish] x :=
    .step (.send rfl rfl _) <| .step (.fail rfl rfl _) <| .step (.finish rfl) <| .refl _
  have hdrain : Drains .head [] x
      ⟨[.ok [firstChunk], .error (.hardwareTimeout 5)], .error (.hardwareTimeout 5)⟩ y := by
    refine .look (.took (.poll _) rfl ?_)
    exact .failed (fun h => nomatch h) (.poll _) rfl
  have hsound : y.Sound := hdrain.continues.sound (sound_fresh.steps hsteps)
  exact ⟨x, _, y, hsteps, hdrain, rfl, rfl, fun more z hmore =>
    (hmore.nothing hsound ⟨rfl, .inl rfl⟩).2.1⟩

end Exchange
end PulseProcessor.Readout
