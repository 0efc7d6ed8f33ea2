import PulseProcessor.Proofs.Readout.Overwriting

/-! # Buffers that are large enough

Behind a poll no more samples are unread than a stride less one, or one sample where a window was
cut to an even length.  If the buffers have room for these and for what a single reading of the
counter can add, no reading ever shows a round of unread samples (`Paced.unread_lt`).  And if each
reading moves the counter, there are no more readings than counts: the reading that shows the last
count is the one whose window is the last (`Paced.poll`).  So the readout ends, in time and with all
samples (`run_completes`).

This asks the board to answer transfers, and the worker to watch the word in which the board counts
(`run_not_completed`).
-/

namespace PulseProcessor

/-! ### Steps of a schedule -/

/-- The step that a schedule takes at the reading behind `k` others. -/
def Schedule.stepAt : Schedule → Nat → Nat
  | constant step, _ => step.toNat
  | steps list, k => (list.getD k 0).toNat

theorem Schedule.stepAt_zero (s : Schedule) : s.stepAt 0 = s.next.1 := by
  rcases s with step | _ | ⟨step, rest⟩ <;> rfl

theorem Schedule.stepAt_next (s : Schedule) (k : Nat) : s.next.2.stepAt k = s.stepAt (k + 1) := by
  rcases s with step | _ | ⟨step, rest⟩ <;> rfl

/-! ### What a device is asked for -/

/-- A device with a log of what it has been asked for. -/
def Device.traced {σ : Type} (device : Device σ) : Device (σ × List Request) where
  handle x r := ((device.handle x.1 r).1, (device.handle x.1 r).2, x.2 ++ [r])

namespace Readout

variable {σ α : Type} {device : Device σ} {w : Worker} {s : σ} {log : List Request} {addr : UInt32}
  {m n : Nat}

/-- A step with the log does what it does without, and asks for the word at `addr` no more than `n`
times. -/
def Asks (addr : UInt32) (n : Nat) (log : List Request) (r : α × σ) (r' : α × σ × List Request) :
    Prop :=
  ∃ new, r' = (r.1, r.2, log ++ new) ∧ new.count (.read addr) ≤ n

theorem Asks.done (answer : α) : Asks addr n log (answer, s) (answer, s, log) :=
  ⟨[], by simp, by simp⟩

theorem Asks.handle (r : Request) (hr : [r].count (.read addr) ≤ n) :
    Asks addr n log (device.handle s r) (device.traced.handle (s, log) r) :=
  ⟨[r], rfl, hr⟩

theorem Asks.following {β ε : Type} {r : Except ε α × σ} {r' : Except ε α × σ × List Request}
    {fail : ε → β} {go : α → σ → β × σ} {go' : α → σ × List Request → β × σ × List Request}
    (h : Asks addr m log r r')
    (hgo : ∀ answer s log, Asks addr n log (go answer s) (go' answer (s, log))) :
    Asks addr (m + n) log (following r fail go) (following r' fail go') := by
  obtain ⟨new, rfl, hnew⟩ := h
  obtain ⟨e | answer, s⟩ := r
  · exact ⟨new, rfl, Nat.le_add_right_of_le hnew⟩
  · obtain ⟨new', heq, hnew'⟩ := hgo answer s (log ++ new)
    refine ⟨new ++ new', ?_, ?_⟩
    · rw [← List.append_assoc]
      exact heq
    · rw [List.count_append]
      exact Nat.add_le_add hnew hnew'

namespace Worker

/-- Fetching reads no word. -/
theorem fetch_asks (channel address length : Nat) :
    Asks addr 0 log (w.fetch device channel address length s)
      (w.fetch device.traced channel address length (s, log)) := by
  have hone (address length : Nat) (s : σ) (log : List Request) :
      Asks addr 0 log (w.transfer device channel address length s)
        (w.transfer device.traced channel address length (s, log)) := .handle _ (by simp)
  rw [fetch_eq, fetch_eq]
  split
  · exact hone ..
  · exact (hone ..).following (n := 0) fun front s log =>
      (hone ..).following (n := 0) fun back s log => .done _

theorem fetchAll_asks (window : Window) (channels : List Nat) :
    Asks addr 0 log (w.fetchAll device window channels s)
      (w.fetchAll device.traced window channels (s, log)) := by
  induction channels generalizing s log with
  | nil => exact .done _
  | cons channel channels ih =>
    rw [fetchAll_cons, fetchAll_cons]
    exact (fetch_asks ..).following (n := 0) fun words s log =>
      ih.following (n := 0) fun samples s log => .done _

/-- **A poll reads the counter once, or not at all.** -/
theorem poll_asks (w : Worker) (stop : Bool) (s : σ) (log : List Request) :
    Asks addr 1 log (w.poll device stop s) (w.poll device.traced stop (s, log)) := by
  by_cases hmissing : w.drained < w.job.total
  · cases stop with
    | true =>
      unfold Worker.poll
      rw [if_neg (Nat.not_le.2 hmissing), if_pos rfl, if_neg (Nat.not_le.2 hmissing), if_pos rfl]
      exact .done _
    | false =>
      rw [poll_eq hmissing, poll_eq hmissing]
      have hread : Asks (α := Except DeviceError UInt32) addr 1 log
          (device.handle s (.read w.job.counterAddr))
          (device.traced.handle (s, log) (.read w.job.counterAddr)) :=
        .handle _ (List.count_le_length)
      refine hread.following (n := 0) fun reading s log => ?_
      rcases w.window reading with e | _ | window
      · exact .done _
      · exact .done _
      · exact (fetchAll_asks ..).following (n := 0) fun samples s log => .done _
  · unfold Worker.poll
    rw [if_pos (Nat.le_of_not_lt hmissing), if_pos (Nat.le_of_not_lt hmissing)]
    exact .done _

/-- **A run reads the counter no more often than it polls.** -/
theorem run_asks (addr : UInt32) (w : Worker) (stops : List Bool) (s : σ) (log : List Request) :
    ∃ new, w.run device.traced stops (s, log) =
      ((w.run device stops s).1, (w.run device stops s).2.1, (w.run device stops s).2.2,
        log ++ new) ∧ new.count (.read addr) ≤ stops.length := by
  induction stops generalizing w s log with
  | nil => exact ⟨[], by simp [Worker.run], by simp⟩
  | cons stop stops ih =>
    have hasks : Asks addr 1 log (w.poll device stop s) (w.poll device.traced stop (s, log)) :=
      w.poll_asks stop s log
    obtain ⟨new, hpoll, hnew⟩ := hasks
    rw [Worker.run, Worker.run, hpoll]
    rcases w.poll device stop s with ⟨progress, s₁⟩
    cases progress with
    | idle =>
      obtain ⟨new', hrun, hnew'⟩ := ih w s₁ (log ++ new)
      refine ⟨new ++ new', by rw [← List.append_assoc]; exact hrun, ?_⟩
      rw [List.count_append, List.length_cons]
      omega
    | delivered chunk next =>
      obtain ⟨new', hrun, hnew'⟩ := ih next s₁ (log ++ new)
      refine ⟨new ++ new', ?_, ?_⟩
      · dsimp only
        rw [hrun, List.append_assoc]
      · rw [List.count_append, List.length_cons]
        omega
    | failed e => exact ⟨new, rfl, Nat.le_trans hnew (Nat.le_add_left ..)⟩
    | stopped => exact ⟨new, rfl, Nat.le_trans hnew (Nat.le_add_left ..)⟩
    | completed => exact ⟨new, rfl, Nat.le_trans hnew (Nat.le_add_left ..)⟩

end Worker

/-! ### One reading -/

/-- The samples that a poll may leave unread: a stride of them is drained, and of an odd number one
is left. -/
def Worker.slack (w : Worker) : Nat := max (w.config.strideFor w.capacity - 1) 1

/-- What a worker does at a reading is decided by the count that the reading stands for. -/
theorem Worker.window_eq (w : Worker) (reading : UInt32) : w.window reading =
    if w.countAt reading < min (w.drained + w.config.strideFor w.capacity) w.job.total then .ok none
    else if w.countAt reading - w.drained ≥ w.capacity then
      .error (.overflow w.drained (w.countAt reading - w.drained) w.capacity)
    else if w.lengthAt (w.countAt reading) = 0 then .ok none
    else .ok (some {
      count := w.countAt reading
      address := w.drained % w.capacity
      length := w.lengthAt (w.countAt reading)
      fetched := w.lengthAt (w.countAt reading) + w.lengthAt (w.countAt reading) % 2 }) := rfl

/-- **What a reading leaves unread**, unless it shows a round of unread samples. -/
theorem Worker.window_spec (w : Worker) (reading : UInt32) :
    match w.window reading with
    | .error _ => w.capacity ≤ w.countAt reading - w.drained
    | .ok none => w.countAt reading ≤ w.drained + w.slack
    | .ok (some window) => w.countAt reading ≤ w.drained + window.length + 1 ∧
      (w.countAt reading = w.job.total → w.countAt reading ≤ w.drained + window.length) := by
  have hstride := w.strideFor_pos
  have hlength : w.countAt reading ≤ w.drained + w.lengthAt (w.countAt reading) + 1 ∧
      (w.countAt reading = w.job.total →
        w.countAt reading ≤ w.drained + w.lengthAt (w.countAt reading)) := by
    unfold lengthAt
    split <;> omega
  rw [window_eq, slack]
  by_cases hfew : w.countAt reading < min (w.drained + w.config.strideFor w.capacity) w.job.total
  · rw [if_pos hfew]
    dsimp only
    omega
  rw [if_neg hfew]
  by_cases hround : w.countAt reading - w.drained ≥ w.capacity
  · rw [if_pos hround]
    exact hround
  rw [if_neg hround]
  by_cases hnone : w.lengthAt (w.countAt reading) = 0
  · rw [if_pos hnone]
    dsimp only
    omega
  · rw [if_neg hnone]
    exact hlength

/-- A worker that has nothing to do waits for samples. -/
theorem Worker.countAt_lt {reading : UInt32} (h : w.window reading = .ok none)
    (hmissing : w.drained < w.job.total) : w.countAt reading < w.job.total := by
  have hle : w.countAt reading ≤ w.job.total := Nat.min_le_right ..
  rw [window_eq] at h
  by_cases hfew : w.countAt reading < min (w.drained + w.config.strideFor w.capacity) w.job.total
  · omega
  rw [if_neg hfew] at h
  by_cases hover : w.countAt reading - w.drained ≥ w.capacity
  · rw [if_pos hover] at h
    cases h
  rw [if_neg hover] at h
  -- All that is unread would be drained at the end.
  refine Nat.lt_of_le_of_ne hle fun hall => ?_
  rw [lengthAt, if_pos hall, if_neg (by omega)] at h
  cases h

/-! ### Workers that keep pace -/

variable {b : Board} {most : Nat}

/-- The count that a board shows stands for the samples that it has stored. -/
theorem Draining.countAt (h : Draining w b) : w.countAt (UInt32.ofNat b.count) = b.written := by
  rw [Worker.countAt, UInt32.toNat_ofNat_of_lt' h.recording.count_lt, h.samplesPerCount,
    ← h.recording.written]
  exact Nat.min_eq_left h.written_le

/-- **A worker that keeps pace with its board**: every reading that is still to come moves the
counter by `most` at most, and there is room for that behind what the last poll has left. -/
structure Paced (most : Nat) (w : Worker) (b : Board) : Prop extends Draining w b where
  limit_lt : b.limit < UInt32.size
  limit_eq : b.limit * b.samplesPerCount = w.job.total
  steps : ∀ k < b.limit - b.count, 1 ≤ b.schedule.stepAt k ∧ b.schedule.stepAt k ≤ most
  unread_le : b.written ≤ w.drained + w.slack
  room : w.slack + most * b.samplesPerCount < w.capacity
  /-- With the last count everything is drained. -/
  all_drained : b.count = b.limit → w.drained = w.job.total

namespace Paced

theorem capacity_pos (h : Paced most w b) : 0 < b.capacity := by
  rw [← h.capacity]
  exact Nat.lt_of_le_of_lt (Nat.zero_le _) h.room

theorem count_lt_limit (h : Paced most w b) (hmissing : w.drained < w.job.total) :
    b.count < b.limit := by
  have hle := h.recording.count_le
  have hall := h.all_drained
  omega

/-- **A reading moves the counter**, by the step of the schedule at most. -/
theorem count_ticked (h : Paced most w b) (hmissing : w.drained < w.job.total) :
    b.count < b.ticked.count ∧ b.ticked.count ≤ b.count + most := by
  have hlt := h.count_lt_limit hmissing
  obtain ⟨hmoves, hmost⟩ := h.steps 0 (by omega)
  have hlimit := h.limit_lt
  rw [Schedule.stepAt_zero] at hmoves hmost
  simp only [Board.ticked, Board.nextCount]
  omega

/-- **No reading shows a round of unread samples.** -/
theorem unread_lt (h : Paced most w b) (hmissing : w.drained < w.job.total) :
    b.ticked.written < w.drained + w.capacity := by
  obtain ⟨-, hle⟩ := h.count_ticked hmissing
  have hadded := Nat.mul_le_mul_right b.samplesPerCount hle
  have hbefore := h.recording.written
  have hafter : b.ticked.written = b.ticked.count * b.samplesPerCount :=
    h.toDraining.ticked.recording.written
  have hunread := h.unread_le
  have hroom := h.room
  rw [Nat.add_mul] at hadded
  omega

/-- The steps that are still to come when a reading has moved the counter. -/
theorem steps_ticked (h : Paced most w b) (hmissing : w.drained < w.job.total) :
    ∀ k < b.ticked.limit - b.ticked.count,
      1 ≤ b.ticked.schedule.stepAt k ∧ b.ticked.schedule.stepAt k ≤ most := by
  intro k hk
  obtain ⟨hmoves, -⟩ := h.count_ticked hmissing
  have hsame : b.ticked.limit = b.limit := rfl
  have hstep := h.steps (k + 1) (by omega)
  rwa [← Schedule.stepAt_next] at hstep

end Paced

/-- What a poll of a worker that keeps pace leads to.  Unless it is the last one, less of the
counter is to come. -/
def Progress.Nears (most : Nat) (w : Worker) (stop : Bool) (b : Board) : Progress × Board → Prop
  | (.idle, b') => Paced most w b' ∧ b'.limit = b.limit ∧ b.count < b'.count
  | (.delivered _ next, b') => Paced most next b' ∧ b'.limit = b.limit ∧ b.count < b'.count
  | (.failed _, _) => False
  | (.stopped, _) => stop = true
  | (.completed, _) => w.drained = w.job.total

namespace Paced

/-- **A poll keeps pace.** -/
theorem poll (h : Paced most w b) (stop : Bool) :
    Progress.Nears most w stop b (w.poll Board.device stop b) := by
  by_cases hall : w.job.total ≤ w.drained
  · rw [Worker.poll, if_pos hall]
    exact Nat.le_antisymm (Nat.le_trans h.drained_le h.toDraining.written_le) hall
  have hmissing : w.drained < w.job.total := Nat.lt_of_not_le hall
  cases stop with
  | true =>
    rw [Worker.poll, if_neg hall, if_pos rfl]
    rfl
  | false =>
    have hdraining := h.toDraining.ticked
    have hmoves := (h.count_ticked hmissing).1
    have hunread := h.unread_lt hmissing
    have hsteps := h.steps_ticked hmissing
    have hcovers := hdraining.window
    have hspec := w.window_spec (UInt32.ofNat b.ticked.count)
    have hend : b.ticked.count = b.ticked.limit → b.ticked.written = w.job.total := fun heq => by
      rw [hdraining.recording.written, heq]
      exact h.limit_eq
    rw [hdraining.countAt] at hspec
    rw [Worker.poll_eq hmissing, h.toDraining.read h.capacity_pos]
    dsimp only [following]
    rcases hwindow : w.window (UInt32.ofNat b.ticked.count) with e | _ | window
    · -- The buffers are too large for that.
      rw [hwindow] at hspec
      dsimp only at hspec
      have := hdraining.drained_le
      omega
    · have hless := Worker.countAt_lt hwindow hmissing
      rw [hdraining.countAt] at hless
      rw [hwindow] at hspec
      exact ⟨⟨hdraining, h.limit_lt, h.limit_eq, hsteps, hspec, h.room,
        fun heq => absurd (hend heq) (Nat.ne_of_lt hless)⟩, rfl, hmoves⟩
    · rw [hwindow] at hcovers hspec
      obtain ⟨hleft, hlast⟩ := hspec
      obtain ⟨transfers, hfetch⟩ := hdraining.fetchAll hcovers hdraining.channels
      dsimp only
      rw [hfetch]
      have hend_le := hcovers.end_le
      have hslack : 1 ≤ w.slack := Nat.le_max_right ..
      refine ⟨⟨(hdraining.withTransfers transfers).advance hend_le, h.limit_lt, h.limit_eq, hsteps,
        ?_, h.room, fun heq => ?_⟩, rfl, hmoves⟩
      · show b.ticked.written ≤ w.drained + window.length + w.slack
        omega
      · have htotal := hend heq
        have := hlast htotal
        show w.drained + window.length = w.job.total
        omega

/-! ### Runs -/

/-- **A worker that keeps pace does not fail**, whether it is stopped or not. -/
theorem run_ne_failed (h : Paced most w b) (stops : List Bool) (e : Error) :
    (w.run Board.device stops b).2.1 ≠ .failed e := by
  induction stops generalizing w b with
  | nil => exact Outcome.noConfusion
  | cons stop stops ih =>
    have hpoll := h.poll stop
    rw [Worker.run]
    rcases hstep : w.poll Board.device stop b with ⟨progress, b'⟩
    rw [hstep] at hpoll
    cases progress with
    | idle => exact ih hpoll.1
    | delivered chunk next => exact ih hpoll.1
    | failed e => exact hpoll.elim
    | stopped => exact Outcome.noConfusion
    | completed => exact Outcome.noConfusion

/-- **There are no more polls than counts** before everything is drained. -/
theorem run_drained (h : Paced most w b) : ∃ n ≤ b.limit - b.count, ∃ chunks w' b',
    w.run Board.device (List.replicate n false) b = (chunks, .polling w', b') ∧
      w'.job.total ≤ w'.drained := by
  -- The induction is on what of the counter is to come.
  induction hleft : b.limit - b.count using Nat.strongRecOn generalizing w b with
  | _ left ih =>
    by_cases hall : w.job.total ≤ w.drained
    · exact ⟨0, Nat.zero_le _, [], w, b, rfl, hall⟩
    have hmissing : w.drained < w.job.total := Nat.lt_of_not_le hall
    have hcount := h.count_lt_limit hmissing
    have hpoll := h.poll false
    rcases hstep : w.poll Board.device false b with ⟨progress, b'⟩
    rw [hstep] at hpoll
    cases progress with
    | idle =>
      obtain ⟨hpaced, hlimit, hmoves⟩ := hpoll
      obtain ⟨n, hn, chunks, w', b'', hrun, hall⟩ := ih _ (by omega) hpaced rfl
      refine ⟨n + 1, by omega, chunks, w', b'', ?_, hall⟩
      rw [List.replicate_succ, Worker.run, hstep]
      exact hrun
    | delivered chunk next =>
      obtain ⟨hpaced, hlimit, hmoves⟩ := hpoll
      obtain ⟨n, hn, chunks, w', b'', hrun, hall⟩ := ih _ (by omega) hpaced rfl
      refine ⟨n + 1, by omega, chunk :: chunks, w', b'', ?_, hall⟩
      rw [List.replicate_succ, Worker.run, hstep]
      dsimp only
      rw [hrun]
    | failed e => exact hpoll.elim
    | stopped => exact Bool.noConfusion hpoll
    | completed => exact absurd hpoll (Nat.ne_of_lt hmissing)

end Paced

/-- A run that has drained everything is completed by the next poll. -/
theorem Worker.run_completed {s' : σ} {stops : List Bool} {chunks : List Chunk} {w' : Worker}
    (hrun : w.run device stops s = (chunks, .polling w', s'))
    (hall : w'.job.total ≤ w'.drained) (stop : Bool) (rest : List Bool) :
    w.run device (stops ++ stop :: rest) s = (chunks, .completed, s') := by
  rw [Worker.run_append hrun, Worker.run, Worker.poll, if_pos hall]
  exact congrArg (·, _, _) (List.append_nil chunks)

/-! ### From the start of a readout -/

/-- **Buffers that are large enough** for a job on a board whose schedule goes in steps from one to
`most`: with a stride less one, or with one sample, a step of samples does not make a round.
Counts have 32 bits, and numbers of samples 64. -/
structure Sized (config : Config) (job : Job) (b : Board) (most : Nat) : Prop where
  limit_lt : b.limit < UInt32.size
  total_lt : job.total < UInt64.size
  rate : b.samplesPerCount = config.samplesPerCount
  total : b.limit * config.samplesPerCount = job.total
  channels : ∀ channel ∈ job.channels, channel < b.channels
  steps : ∀ k < b.limit, 1 ≤ b.schedule.stepAt k ∧ b.schedule.stepAt k ≤ most
  room : max (config.strideFor b.capacity - 1) 1 + most * config.samplesPerCount < b.capacity

variable {config : Config} {job : Job}

theorem Sized.capacity_pos (h : Sized config job b most) : 0 < b.capacity :=
  Nat.lt_of_le_of_lt (Nat.zero_le _) h.room

theorem Sized.paced_begun (h : Sized config job b most) (hintact : b.poisoned = false)
    (hstalled : b.stalled = false) (hcounter : job.counterAddr = b.counterAddr)
    (hinside : b.counterAddr.toNat < 1024) :
    Paced most { job, config, capacity := b.capacity } b.begun where
  toDraining := draining_begun hintact hstalled h.rate hcounter hinside h.channels
    (Nat.le_of_eq h.total) h.total_lt
  limit_lt := h.limit_lt
  limit_eq := (congrArg (b.limit * ·) h.rate).trans h.total
  steps := h.steps
  unread_le := Nat.zero_le _
  room := by
    have hroom := h.room
    rw [← h.rate] at hroom
    exact hroom
  all_drained heq := by
    have hnone : 0 = b.limit := heq
    rw [← h.total, ← hnone]
    exact (Nat.zero_mul _).symm

/-- **A readout with buffers that are large enough ends well.**  On a board that answers transfers
and counts in the word that is watched, and that has not broken down before, a readout begins and
does not fail, whether it is stopped or not.  If it is not stopped, it completes: it has then read
the counter no more often than the counter has counts, and has delivered all samples, in order. -/
theorem run_completes (hintact : b.poisoned = false) (hsized : Sized config job b most)
    (hstalled : b.stalled = false) (hcounter : job.counterAddr = b.counterAddr)
    (hinside : b.counterAddr.toNat < 1024) :
    ∃ w b', Worker.begin Board.device config job b = (.ok w, b') ∧
      (∀ stops e, (w.run Board.device stops b').2.1 ≠ .failed e) ∧
      ∃ chunks b'' log, log.count (.read job.counterAddr) ≤ b.limit ∧
        total chunks = job.total ∧
        (∀ k channel, job.channels[k]? = some channel →
          delivered chunks k = (List.range job.total).map (Sample.simulated channel)) ∧
        ∀ n > b.limit,
          w.run Board.device (List.replicate n false) b' = (chunks, .completed, b'') ∧
          w.run Board.device.traced (List.replicate n false) (b', []) =
            (chunks, .completed, b'', log) := by
  have hpaced := hsized.paced_begun hintact hstalled hcounter hinside
  refine ⟨_, _, begin_eq hintact hcounter hinside, hpaced.run_ne_failed, ?_⟩
  obtain ⟨m, hm, chunks, w', b'', hrun, hall⟩ := hpaced.run_drained
  have hm : m ≤ b.limit := hm
  obtain ⟨log, htraced, hlog⟩ := Worker.run_asks job.counterAddr
    { job, config, capacity := b.capacity } (List.replicate m false) b.begun []
  rw [hrun] at htraced
  have hends (n : Nat) (hn : n > b.limit) :
      List.replicate n false =
        List.replicate m false ++ false :: List.replicate (n - m - 1) false := by
    rw [← List.replicate_succ, List.replicate_append_replicate]
    exact congrArg (List.replicate · false) (by omega)
  have hcompleted := Worker.run_completed hrun hall false []
  have hlossless := hpaced.toDraining.run (List.replicate m false ++ [false])
  rw [hcompleted] at hlossless
  have htotal : total chunks = job.total := by
    have := hlossless.completed rfl
    rwa [Nat.zero_add] at this
  refine ⟨chunks, b'', log, Nat.le_trans hlog (by simpa using hm), htotal,
    fun k channel hk => ?_, fun n hn => ?_⟩
  · rw [hlossless.samples k channel hk, htotal, samplesFrom, List.range_eq_range']
  · rw [hends n hn]
    exact ⟨Worker.run_completed hrun hall false _, Worker.run_completed htraced hall false _⟩

/-- A board with nine slots that stores two samples a count, set up for ten samples. -/
def sizedBoard : Board :=
  { capacity := 9, channels := 2, schedule := .steps [1, 2, 1, 2, 1], limit := 5,
    samplesPerCount := 2 }

/-- What `sizedBoard` is read out for. -/
def sizedJob : Job := { total := 10, counterAddr := 1, channels := [1, 0] }

/-- No slot is to spare: with a larger stride a round of samples might be unread. -/
theorem sized_sizedBoard :
    Sized { stride := some 5, samplesPerCount := 2 } sizedJob sizedBoard 2 where
  limit_lt := by decide
  total_lt := by decide
  rate := rfl
  total := rfl
  channels := by decide
  steps := by decide
  room := by decide

theorem run_completes_sizedBoard : sizedBoard.poisoned = false ∧ ∃ w b',
    Worker.begin Board.device { stride := some 5, samplesPerCount := 2 } sizedJob sizedBoard =
      (.ok w, b') ∧
    ∃ chunks b'', w.run Board.device (List.replicate 6 false) b' = (chunks, .completed, b'') ∧
      total chunks = 10 ∧ delivered chunks 0 = (List.range 10).map (Sample.simulated 1) := by
  obtain ⟨w, b', hbegin, -, chunks, b'', _, -, htotal, hdelivered, hrun⟩ :=
    run_completes rfl sized_sizedBoard rfl rfl (by decide)
  exact ⟨rfl, w, b', hbegin, chunks, b'', (hrun 6 (by decide)).1, htotal,
    hdelivered 0 1 rfl⟩

/-- A board with eight slots, set up for four samples. -/
def lateBoard (counterAddr : UInt32) (stalled : Bool) : Board :=
  { capacity := 8, channels := 1, limit := 4, counterAddr, stalled }

/-- What `lateBoard` is read out for, watching the word at `counterAddr`. -/
def lateJob (counterAddr : UInt32) : Job := { total := 4, counterAddr, channels := [0] }

/-- Two samples at a time are drained, and a transfer is given up after five milliseconds. -/
def lateConfig : Config := { stride := some 2, timeout := 5 }

theorem sized_lateBoard (counterAddr watched : UInt32) (stalled : Bool) :
    Sized lateConfig (lateJob watched) (lateBoard counterAddr stalled) 1 where
  limit_lt := show 4 < UInt32.size by decide
  total_lt := show 4 < UInt64.size by decide
  rate := rfl
  total := rfl
  channels := show ∀ channel ∈ [0], channel < 1 by decide
  steps _ _ := ⟨Nat.le_refl 1, Nat.le_refl 1⟩
  room := show max (lateConfig.strideFor 8 - 1) 1 + 1 * 1 < 8 by decide

/-- **Readouts that do not complete**, large as the buffers are: of a board that leaves transfers
unanswered; of a board that counts in another word than the one that is watched, polled once more
than it has counts; and of a board that counts outside of its memory. -/
theorem run_not_completed :
    (Sized lateConfig (lateJob 1) (lateBoard 1 true) 1 ∧ ∃ w b',
      Worker.begin Board.device lateConfig (lateJob 1) (lateBoard 1 true) = (.ok w, b') ∧
      (w.run Board.device (List.replicate 5 false) b').2.1 = .failed (.hardwareTimeout 5)) ∧
    (Sized lateConfig (lateJob 2) (lateBoard 1 false) 1 ∧ ∃ w b',
      Worker.begin Board.device lateConfig (lateJob 2) (lateBoard 1 false) = (.ok w, b') ∧
      (w.run Board.device (List.replicate 5 false) b').2.1 = .polling w) ∧
    (Sized lateConfig (lateJob 1024) (lateBoard 1024 false) 1 ∧ ∃ e b',
      Worker.begin Board.device lateConfig (lateJob 1024) (lateBoard 1024 false) =
        (.error e, b')) :=
  ⟨⟨sized_lateBoard .., _, _, rfl, by decide +kernel⟩,
    ⟨sized_lateBoard .., _, _, rfl, by decide +kernel⟩, ⟨sized_lateBoard .., _, _, rfl⟩⟩

end Readout
end PulseProcessor
