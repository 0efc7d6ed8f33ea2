import PulseProcessor.Proofs.Readout.Windows

/-! # Overwritten samples

A board goes on storing samples while nobody drains it, and once a whole round of the buffers is
unread the next sample overwrites one of them.  A worker finds that out from its reading of the
counter: it transfers nothing, delivers nothing, and the run ends with an overflow
(`overrun_noticed`).  All that this takes of the board is that its counter stands for what it has
stored; transfers may fail, and the state of the slots does not matter (`Watching`).  If the board
breaks down, the run ends with that.

But a worker looks at no more samples than it is to drain.  When fewer than a round are missing, and
the counter runs past the total, the overrun escapes it (`overrun_unnoticed`).
-/

namespace PulseProcessor.Readout

variable {w w₁ : Worker} {b b₁ : Board} {start : Board} {job : Job}

/-! ### Runs and their beginnings -/

/-- A run that goes on is the run so far, and the run of the worker where it is. -/
theorem Worker.run_append {σ : Type} {device : Device σ} {s s₁ : σ} {stops : List Bool}
    {chunks : List Chunk} (h : w.run device stops s = (chunks, .polling w₁, s₁))
    (rest : List Bool) : w.run device (stops ++ rest) s =
      (chunks ++ (w₁.run device rest s₁).1, (w₁.run device rest s₁).2) := by
  induction stops generalizing w s chunks with
  | nil =>
    cases h
    rfl
  | cons stop stops ih =>
    rw [Worker.run] at h
    rw [List.cons_append, Worker.run]
    generalize w.poll device stop s = step at h ⊢
    obtain ⟨progress, s'⟩ := step
    cases progress with
    | idle => exact ih h
    | delivered chunk next =>
      dsimp only at h ⊢
      rcases hnext : next.run device stops s' with ⟨chunks', outcome, s''⟩
      rw [hnext] at h
      cases h
      rw [ih hnext]
      rfl
    | failed e => cases h
    | stopped => cases h
    | completed => cases h

/-! ### Workers that watch a board -/

/-- **A worker and a board in a readout that began on the board `start`.** -/
structure Watching (start : Board) (job : Job) (w : Worker) (b : Board) : Prop where
  counting : b.Counting
  job : w.job = job
  capacity : w.capacity = start.capacity
  samplesPerCount : w.config.samplesPerCount = b.samplesPerCount
  counterAddr : w.job.counterAddr = b.counterAddr
  limit : b.limit = start.limit
  rate : b.samplesPerCount = start.samplesPerCount

namespace Watching

/-- A reading of the counter only adds samples. -/
theorem ticked (h : Watching start job w b) : Watching start job w b.ticked :=
  ⟨h.counting.ticked, h.job, h.capacity, h.samplesPerCount, h.counterAddr, h.limit, h.rate⟩

theorem withTransfers (h : Watching start job w b) (transfers : Array Transfer) :
    Watching start job w { b with transfers } :=
  ⟨h.counting.withTransfers transfers, h.job, h.capacity, h.samplesPerCount, h.counterAddr, h.limit,
    h.rate⟩

theorem advance (h : Watching start job w b) (length : Nat) :
    Watching start job (w.advance length) b :=
  ⟨h.counting, h.job, h.capacity, h.samplesPerCount, h.counterAddr, h.limit, h.rate⟩

theorem read_cases (h : Watching start job w b) :
    Board.device.handle b (.read w.job.counterAddr) =
        (.ok (UInt32.ofNat b.ticked.count), b.ticked) ∨
      (Board.device.handle b (.read w.job.counterAddr)).1 = .error .crashed := by
  rw [h.counterAddr]
  rcases h.counting.read_cases with ⟨-, hread⟩ | ⟨-, hread⟩
  · exact .inl hread
  · exact .inr hread

/-- A reading stands for the samples that the board has stored. -/
theorem countAt_eq (h : Watching start job w b) :
    w.countAt (UInt32.ofNat b.count) = min b.written job.total := by
  rw [Worker.countAt, UInt32.toNat_ofNat_of_lt' h.counting.count_lt, h.samplesPerCount,
    ← h.counting.written, h.job]

theorem written_le (h : Watching start job w b) :
    b.written ≤ start.limit * start.samplesPerCount := by
  have := Nat.mul_le_mul_right b.samplesPerCount h.counting.count_le
  rw [h.counting.written, ← h.limit, ← h.rate]
  exact this

end Watching

/-- A stride is no more than a round of the buffers. -/
theorem strideFor_le {config : Config} {capacity : Nat} (h : 0 < capacity) :
    config.strideFor capacity ≤ capacity := by
  unfold Config.strideFor
  omega

/-- **A reading that shows a round of unread samples is an overflow.** -/
theorem Worker.window_eq_overflow {reading : UInt32} (hcapacity : 0 < w.capacity)
    (h : w.drained + w.capacity ≤ w.countAt reading) : w.window reading =
      .error (.overflow w.drained (w.countAt reading - w.drained) w.capacity) := by
  have hstride : w.config.strideFor w.capacity ≤ w.capacity := strideFor_le hcapacity
  unfold Worker.window
  dsimp only
  rw [← Worker.countAt, if_neg (by omega), if_pos (by omega)]

/-! ### Polls -/

section
variable {α β : Type}

/-- The board afterwards is the one before, but for the log of transfers, if there is a result. -/
def Transfers (b : Board) (r : Except DeviceError α × Board) : Prop :=
  ∀ answer, r.1 = .ok answer → ∃ transfers, r.2 = { b with transfers }

theorem Transfers.following {r : Except DeviceError α × Board}
    {go : α → Board → Except DeviceError β × Board} (h : Transfers b r)
    (hgo : ∀ answer transfers, Transfers b (go answer { b with transfers })) :
    Transfers b (following r .error go) := by
  obtain ⟨e | answer, b'⟩ := r
  · exact nofun
  · obtain ⟨transfers, hr⟩ := h answer rfl
    obtain rfl : b' = { b with transfers } := hr
    exact hgo answer transfers

theorem transfers_ok (answer : α) (transfers : Array Transfer) :
    Transfers b (.ok answer, { b with transfers }) :=
  fun _ _ => ⟨transfers, rfl⟩

end

/-- Fetching is transfers and nothing else. -/
theorem transfers_fetch (w : Worker) (channel address length : Nat) (b : Board)
    (transfers : Array Transfer) :
    Transfers b (w.fetch Board.device channel address length { b with transfers }) := by
  have hone (address length : Nat) (transfers : Array Transfer) :
      Transfers b (w.transfer Board.device channel address length { b with transfers }) := by
    intro words hwords
    obtain ⟨transfers', poisoned, heq, hintact⟩ := ({ b with transfers } : Board).transfer_snd
      channel address length w.config.timeout
    have hanswer : (({ b with transfers } : Board).transfer channel address length
        w.config.timeout).1 = .ok words := hwords
    rw [hintact (by rw [hanswer]; exact nofun)] at heq
    exact ⟨transfers', heq⟩
  rw [Worker.fetch_eq]
  split
  · exact hone _ _ _
  · exact (hone _ _ _).following fun _ _ => (hone _ _ _).following fun _ _ => transfers_ok _ _

theorem transfers_fetchAll (w : Worker) (window : Window) (channels : List Nat) (b : Board)
    (transfers : Array Transfer) :
    Transfers b (w.fetchAll Board.device window channels { b with transfers }) := by
  induction channels generalizing transfers with
  | nil => exact transfers_ok _ _
  | cons channel channels ih =>
    rw [Worker.fetchAll_cons]
    exact (transfers_fetch w channel _ _ b _).following fun _ transfers =>
      (ih transfers).following fun _ _ => transfers_ok _ _

namespace Watching

/-- What is known where a run goes on. -/
def Goes (start : Board) (job : Job) (w : Worker) : Progress × Board → Prop
  | (.idle, b) => Watching start job w b
  | (.delivered _ next, b) => Watching start job next b
  | _ => True

/-- **A poll that goes on goes on watching.** -/
theorem poll (h : Watching start job w b) (stop : Bool) :
    Goes start job w (w.poll Board.device stop b) := by
  by_cases hmissing : w.drained < w.job.total
  · cases stop with
    | true =>
      rw [Worker.poll, if_neg (Nat.not_le.2 hmissing), if_pos rfl]
      trivial
    | false =>
      rw [Worker.poll_eq hmissing]
      rcases h.read_cases with hread | hcrashed
      case inr =>
        rcases hread : Board.device.handle b (.read w.job.counterAddr) with ⟨answer, b'⟩
        rw [hread] at hcrashed
        subst hcrashed
        trivial
      rw [hread]
      dsimp only [following]
      rcases w.window (UInt32.ofNat b.ticked.count) with e | _ | window
      · trivial
      · exact h.ticked
      · dsimp only
        have hstate := transfers_fetchAll w window w.job.channels b.ticked b.ticked.transfers
        rcases hfetch : w.fetchAll Board.device window w.job.channels b.ticked with ⟨answer, b'⟩
        cases answer with
        | error e => trivial
        | ok samples =>
          obtain ⟨transfers, hb'⟩ := hstate samples (congrArg Prod.fst hfetch)
          obtain rfl : b' = { b.ticked with transfers } := by rw [← hb', hfetch]
          exact (h.ticked.withTransfers transfers).advance window.length
  · rw [Worker.poll, if_pos (Nat.le_of_not_lt hmissing)]
    trivial

/-- **A run that goes on goes on watching.** -/
theorem run (h : Watching start job w b) {stops : List Bool} {chunks : List Chunk}
    (hrun : w.run Board.device stops b = (chunks, .polling w₁, b₁)) :
    Watching start job w₁ b₁ := by
  induction stops generalizing w b chunks with
  | nil =>
    cases hrun
    exact h
  | cons stop stops ih =>
    have hpoll := h.poll stop
    rw [Worker.run] at hrun
    generalize w.poll Board.device stop b = step at hpoll hrun
    obtain ⟨progress, b'⟩ := step
    cases progress with
    | idle => exact ih hpoll hrun
    | delivered chunk next =>
      dsimp only at hrun
      rcases hnext : next.run Board.device stops b' with ⟨chunks', outcome, b''⟩
      rw [hnext] at hrun
      cases hrun
      exact ih hpoll hnext
    | failed e => cases hrun
    | stopped => cases hrun
    | completed => cases hrun

/-- **An overrun is noticed at the poll whose reading shows it**, unless fewer samples are missing
than make a round.  Nothing is transferred. -/
theorem poll_overrun (h : Watching start job w b) (hcapacity : 0 < start.capacity)
    {reading : UInt32} {b₁ : Board}
    (hread : Board.device.handle b (.read w.job.counterAddr) = (.ok reading, b₁))
    (hover : w.drained + start.capacity ≤ b₁.written)
    (hroom : w.drained + start.capacity ≤ job.total ∨
      start.limit * start.samplesPerCount ≤ job.total) :
    w.poll Board.device false b =
        (.failed (.overflow w.drained (min b₁.written job.total - w.drained) start.capacity),
          b₁) ∧
      b₁.transfers = b.transfers := by
  obtain ⟨rfl, rfl⟩ : reading = .ofNat b.ticked.count ∧ b₁ = b.ticked := by
    rcases h.read_cases with hok | hcrashed
    · rw [hok] at hread
      cases hread
      exact ⟨rfl, rfl⟩
    · rw [hread] at hcrashed
      cases hcrashed
  have hwritten := h.ticked.written_le
  have hmissing : w.drained < w.job.total := by
    rw [h.job]
    omega
  have hcount := h.ticked.countAt_eq
  have hwindow := Worker.window_eq_overflow (h.capacity ▸ hcapacity)
    (show w.drained + w.capacity ≤ w.countAt (.ofNat b.ticked.count) by
      rw [h.capacity, hcount]
      omega)
  rw [hcount, h.capacity] at hwindow
  rw [Worker.poll_eq hmissing, hread]
  dsimp only [following]
  rw [hwindow]
  exact ⟨rfl, rfl⟩

end Watching

/-! ### From the start of a readout -/

theorem watching_begun {config : Config} (hintact : b.poisoned = false)
    (hrate : b.samplesPerCount = config.samplesPerCount)
    (hcounter : job.counterAddr = b.counterAddr) (hinside : b.counterAddr.toNat < 1024) :
    Watching b job { job, config, capacity := b.capacity } b.begun :=
  ⟨Board.counting_begun hintact hinside, rfl, rfl, hrate.symm, hcounter, rfl, rfl⟩

/-- **Overwritten samples are not delivered**, unless fewer of them are missing than make a round of
the buffers and the counter runs past the total.  On a board with buffers that has not broken down,
whatever else has happened to it before, a readout begins; and where after some polls the next
reading of the counter finds a round of samples stored beyond those drained, that poll transfers
nothing, and the run ends with an overflow. -/
theorem overrun_noticed {config : Config} (hintact : b.poisoned = false)
    (hcapacity : 0 < b.capacity) (hrate : b.samplesPerCount = config.samplesPerCount)
    (hcounter : job.counterAddr = b.counterAddr) (hinside : b.counterAddr.toNat < 1024)
    (stops : List Bool) :
    ∃ w b', Worker.begin Board.device config job b = (.ok w, b') ∧
      ∀ chunks w₁ b₁, w.run Board.device stops b' = (chunks, .polling w₁, b₁) →
        ∀ reading b₂, Board.device.handle b₁ (.read job.counterAddr) = (.ok reading, b₂) →
          w₁.drained + b.capacity ≤ b₂.written →
          w₁.drained + b.capacity ≤ job.total ∨ b.limit * b.samplesPerCount ≤ job.total →
          (∀ rest, w.run Board.device (stops ++ false :: rest) b' =
            (chunks, .failed (.overflow w₁.drained
              (min b₂.written job.total - w₁.drained) b.capacity), b₂)) ∧
          b₂.transfers = b₁.transfers := by
  refine ⟨_, _, begin_eq hintact hcounter hinside,
    fun chunks w₁ b₁ hrun reading b₂ hread hover hroom => ?_⟩
  have hwatching := (watching_begun hintact hrate hcounter hinside).run hrun
  rw [← hwatching.job] at hread
  obtain ⟨hpoll, htransfers⟩ := hwatching.poll_overrun hcapacity hread hover hroom
  refine ⟨fun rest => ?_, htransfers⟩
  rw [Worker.run_append hrun, Worker.run, hpoll]
  exact congrArg (·, _, _) (List.append_nil chunks)

/-- A board with four slots that stores eight samples at a time. -/
def hastyBoard : Board := { capacity := 4, channels := 1, schedule := .steps [8, 8] }

/-- Twelve samples of `hastyBoard`. -/
def longJob : Job := { total := 12, counterAddr := 1, channels := [0] }

theorem overrun_noticed_hastyBoard : hastyBoard.poisoned = false ∧ ∃ w b',
    Worker.begin Board.device {} longJob hastyBoard = (.ok w, b') ∧
    ∃ reading b₂, Board.device.handle b' (.read 1) = (.ok reading, b₂) ∧
      w.drained + hastyBoard.capacity ≤ b₂.written ∧ ∀ rest,
        w.run Board.device (false :: rest) b' = ([], .failed (.overflow 0 8 4), b₂) := by
  obtain ⟨w, b', hbegin, hrun⟩ := @overrun_noticed hastyBoard longJob {} rfl (by decide) rfl
    rfl (by decide) []
  have hbegun : Worker.begin Board.device {} longJob hastyBoard = _ := begin_eq rfl rfl (by decide)
  obtain ⟨rfl, rfl⟩ : w = { job := longJob, config := {}, capacity := 4 } ∧
      b' = hastyBoard.begun := by
    rw [hbegun] at hbegin
    cases hbegin
    exact ⟨rfl, rfl⟩
  have hread : Board.device.handle hastyBoard.begun (.read 1) =
      (.ok (8 : UInt32), hastyBoard.begun.ticked) :=
    Board.read_of_ticks (b := hastyBoard.begun) rfl rfl (by decide) ⟨by decide, by decide⟩
  have hover : 0 + hastyBoard.capacity ≤ hastyBoard.begun.ticked.written := by decide
  exact ⟨rfl, _, _, hbegin, _, _, hread, hover,
    (hrun [] _ _ rfl _ _ hread hover (.inl (by decide))).1⟩

/-- Three samples of `hastyBoard`. -/
def shortJob : Job := { total := 3, counterAddr := 1, channels := [0] }

/-- **An overrun that is not noticed.**  Of the three samples that are read out none is in its slot
any more, yet a chunk is delivered. -/
theorem overrun_unnoticed : ∃ w b',
    Worker.begin Board.device {} shortJob hastyBoard = (.ok w, b') ∧
    w.drained + hastyBoard.capacity ≤ b'.ticked.written ∧
    (w.run Board.device [false] b').1.map (·.samples) =
      [[[.simulated 0 4, .simulated 0 5, .simulated 0 6]]] ∧
    (w.run Board.device [false] b').2.2.transfers.toList = [⟨0, 0, 4⟩] := by
  have hbegun : Worker.begin Board.device {} shortJob hastyBoard = _ := begin_eq rfl rfl (by decide)
  exact ⟨_, _, hbegun, by decide, by decide +kernel, by decide +kernel⟩

end PulseProcessor.Readout
