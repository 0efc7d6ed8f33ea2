import PulseProcessor.Proofs.Board.Recording
import PulseProcessor.Readout.Worker

/-! # Draining loses nothing

A worker and a recording board go together as long as the worker has drained no more than the board
has stored (`Draining`).  A window is drained only if fewer samples are unread than there are slots;
so all of them are still in their slots, and what is fetched for the window, in one transfer or in
two, is the window itself and perhaps one word of padding.  Every poll keeps this up, and what a run
of polls delivers is one sample after the other.
-/

namespace PulseProcessor.Readout

/-- Where a worker is after some polls. -/
inductive Outcome where
  | polling (w : Worker)
  | stopped
  | completed
  | failed (e : Error)
  deriving DecidableEq, Repr

/-- Poll after poll, each with what it sees of the request to stop: the chunks that are delivered,
where the worker is in the end, and the device. -/
def Worker.run {σ : Type} (device : Device σ) (w : Worker) :
    List Bool → σ → List Chunk × Outcome × σ
  | [], s => ([], .polling w, s)
  | stop :: stops, s =>
    match w.poll device stop s with
    | (.idle, s) => w.run device stops s
    | (.delivered chunk next, s) =>
      let (chunks, outcome, s) := next.run device stops s
      (chunk :: chunks, outcome, s)
    | (.failed e, s) => ([], .failed e, s)
    | (.stopped, s) => ([], .stopped, s)
    | (.completed, s) => ([], .completed, s)

/-- **A worker that drains a recording board.** -/
structure Draining (w : Worker) (b : Board) : Prop where
  recording : b.Recording
  capacity : w.capacity = b.capacity
  samplesPerCount : w.config.samplesPerCount = b.samplesPerCount
  counterAddr : w.job.counterAddr = b.counterAddr
  channels : ∀ channel ∈ w.job.channels, channel < b.channels
  limit_le : b.limit * b.samplesPerCount ≤ w.job.total
  drained_le : w.drained ≤ b.written

variable {w : Worker} {b : Board} {channel address length : Nat}

/-- A reading of the counter only adds samples. -/
theorem Draining.ticked (h : Draining w b) : Draining w b.ticked where
  recording := h.recording.ticked
  capacity := h.capacity
  samplesPerCount := h.samplesPerCount
  counterAddr := h.counterAddr
  channels := h.channels
  limit_le := h.limit_le
  drained_le := Nat.le_trans h.drained_le (Nat.le_max_left ..)

theorem Draining.read (h : Draining w b) (hcapacity : 0 < b.capacity) :
    Board.device.handle b (.read w.job.counterAddr) =
      (.ok (UInt32.ofNat b.ticked.count), b.ticked) := by
  rw [h.counterAddr]
  exact h.recording.read hcapacity

/-- A board without slots may break down instead. -/
theorem Draining.read_cases (h : Draining w b) :
    Board.device.handle b (.read w.job.counterAddr) =
        (.ok (UInt32.ofNat b.ticked.count), b.ticked) ∨
      b.capacity = 0 ∧ (Board.device.handle b (.read w.job.counterAddr)).1 = .error .crashed := by
  rw [h.counterAddr]
  rcases h.recording.read_cases with ⟨-, hread⟩ | ⟨hbreaks, hread⟩
  · exact .inl hread
  · exact .inr ⟨Nat.eq_zero_of_not_pos fun hpos => hbreaks (h.recording.ticks hpos), hread⟩

/-! ### Windows -/

theorem Draining.written_le (h : Draining w b) : b.written ≤ w.job.total := by
  have := Nat.mul_le_mul_right b.samplesPerCount h.recording.count_le
  have := h.limit_le
  have := h.recording.written
  omega

/-- What a window is, given what the board has stored. -/
structure Window.Covers (window : Window) (w : Worker) (written : Nat) : Prop where
  address : window.address = w.drained % w.capacity
  end_le : w.drained + window.length ≤ written
  unread_lt : written < w.drained + w.capacity
  length_le : window.length ≤ window.fetched
  fetched_le : window.fetched ≤ w.capacity

theorem Draining.window (h : Draining w b) :
    match w.window (UInt32.ofNat b.count) with
    | .error e => ∃ unread, e = .overflow w.drained unread w.capacity
    | .ok none => True
    | .ok (some window) => window.Covers w b.written := by
  have hwritten : min ((UInt32.ofNat b.count).toNat * w.config.samplesPerCount) w.job.total =
      b.written := by
    rw [UInt32.toNat_ofNat_of_lt' h.recording.count_lt, h.samplesPerCount, ← h.recording.written]
    exact Nat.min_eq_left h.written_le
  have hle := h.drained_le
  unfold Worker.window
  rw [hwritten]
  dsimp only
  by_cases hfew : b.written < min (w.drained + w.config.strideFor w.capacity) w.job.total
  · rw [if_pos hfew]
    trivial
  rw [if_neg hfew]
  by_cases hover : b.written - w.drained ≥ w.capacity
  · rw [if_pos hover]
    exact ⟨_, rfl⟩
  rw [if_neg hover]
  -- Only at the end may a window have an odd length.
  generalize hlength : (if b.written = w.job.total then b.written - w.drained
    else b.written - w.drained - (b.written - w.drained) % 2) = length
  have hlength' : length ≤ b.written - w.drained := by
    rw [← hlength]
    split <;> omega
  by_cases hzero : length = 0
  · rw [if_pos hzero]
    trivial
  · rw [if_neg hzero]
    exact ⟨rfl, by dsimp only; omega, by omega, by dsimp only; omega, by dsimp only; omega⟩

/-! ### Fetching -/

/-- Slots up to the end of a buffer. -/
theorem map_range'_eq {α : Type} (f : Nat → α) (h : address + length ≤ w.capacity) :
    (List.range' address length).map f =
      (List.range length).map fun j => f ((address + j) % w.capacity) := by
  rw [List.range'_eq_map_range, List.map_map]
  refine List.map_congr_left fun j hj => ?_
  rw [List.mem_range] at hj
  rw [Nat.mod_eq_of_lt (by omega)]
  rfl

/-- Slots around the end of a buffer, in two parts. -/
theorem map_range'_append {α : Type} (f : Nat → α) (haddress : address < w.capacity)
    (hwrap : w.capacity ≤ address + length) (hlength : length ≤ w.capacity) :
    (List.range' address (w.capacity - address)).map f ++
        (List.range' 0 (length - (w.capacity - address))).map f =
      (List.range length).map fun j => f ((address + j) % w.capacity) := by
  have hsplit : length = (w.capacity - address) + (length - (w.capacity - address)) := by omega
  conv => rhs; rw [hsplit, List.range_add, List.map_append, List.map_map]
  rw [map_range'_eq f (by omega : address + (w.capacity - address) ≤ w.capacity),
    ← List.range_eq_range']
  refine congrArg _ (List.map_congr_left fun j hj => ?_)
  rw [List.mem_range] at hj
  have hindex : (address + (w.capacity - address + j)) % w.capacity = j := by
    rw [show address + (w.capacity - address + j) = j + w.capacity by omega, Nat.add_mod_right,
      Nat.mod_eq_of_lt (by omega)]
  exact congrArg f hindex.symm

/-- The words of a window, one for each slot from its address on, around the end of the buffer. -/
theorem Draining.fetch (h : Draining w b) (haddress : address < w.capacity)
    (hlength : length ≤ w.capacity) (hchannel : channel < b.channels) : ∃ transfers,
      w.fetch Board.device channel address length b =
        (.ok ((List.range length).map fun j =>
          b.buffers.wordAt channel ((address + j) % w.capacity)), { b with transfers }) := by
  unfold Worker.fetch
  dsimp only [Board.device, Board.handle]
  by_cases hinside : address + length ≤ w.capacity
  · rw [if_pos hinside, h.recording.transfer hchannel (h.capacity ▸ hinside),
      map_range'_eq _ hinside]
    exact ⟨_, rfl⟩
  · -- The second transfer starts at the front of the buffer again.
    have hfront : address + (w.capacity - address) ≤ b.capacity := by
      rw [← h.capacity]
      omega
    have hback : 0 + (length - (w.capacity - address)) ≤ b.capacity := by
      rw [← h.capacity]
      omega
    rw [if_neg hinside, h.recording.transfer hchannel hfront]
    dsimp only
    rw [(h.recording.withTransfers
      (b.transfers.push ⟨channel, address, w.capacity - address⟩)).transfer hchannel hback]
    dsimp only
    exact ⟨_, by rw [← map_range'_append _ haddress (by omega) hlength]⟩

theorem Draining.withTransfers (h : Draining w b) (transfers : Array Transfer) :
    Draining w { b with transfers } :=
  ⟨h.recording.withTransfers transfers, h.capacity, h.samplesPerCount, h.counterAddr, h.channels,
    h.limit_le, h.drained_le⟩

/-- **Unread samples are in the slots where the worker looks for them.** -/
theorem Draining.wordAt (h : Draining w b) (hchannel : channel < b.channels) {j : Nat}
    (hstored : w.drained + j < b.written) (hunread : b.written < w.drained + w.capacity) :
    b.buffers.wordAt channel ((w.drained % w.capacity + j) % w.capacity) =
      (Sample.simulated channel (w.drained + j)).toWord := by
  -- A slot is written again only after as many samples as there are slots.
  rw [Nat.mod_add_mod, h.capacity]
  exact h.recording.held channel hchannel (w.drained + j) (Nat.zero_le _) hstored (by
    rw [← h.capacity]
    omega)

/-- What has been stored may be drained. -/
theorem Draining.advance (h : Draining w b) (hlength : w.drained + length ≤ b.written) :
    Draining { w with drained := w.drained + length } b :=
  ⟨h.recording, h.capacity, h.samplesPerCount, h.counterAddr, h.channels, h.limit_le, hlength⟩

/-- Samples of a readout from one number on. -/
def samplesFrom (channel first length : Nat) : List Sample :=
  (List.range' first length).map (Sample.simulated channel)

/-- The words of a window, less the padding, are its samples. -/
theorem Draining.samples (h : Draining w b) {window : Window} (hw : window.Covers w b.written)
    (hchannel : channel < b.channels) :
    (((List.range window.fetched).map fun j => b.buffers.wordAt channel
      ((window.address + j) % w.capacity)).take window.length).map Sample.ofWord =
        samplesFrom channel w.drained window.length := by
  rw [← List.map_take, List.take_range, Nat.min_eq_left hw.length_le, List.map_map, samplesFrom,
    List.range'_eq_map_range, List.map_map]
  refine List.map_congr_left fun j hj => ?_
  rw [List.mem_range] at hj
  have hend := hw.end_le
  rw [Function.comp_apply, hw.address, h.wordAt hchannel (by omega) hw.unread_lt,
    Sample.ofWord_toWord]
  rfl

/-- **What is fetched for a window is the window, one list for each readout.** -/
theorem Draining.fetchAll (h : Draining w b) {window : Window} (hw : window.Covers w b.written)
    {channels : List Nat} (hchannels : ∀ channel ∈ channels, channel < b.channels) :
    ∃ transfers, w.fetchAll Board.device window channels b =
      (.ok (channels.map fun channel => samplesFrom channel w.drained window.length),
        { b with transfers }) := by
  induction channels generalizing b with
  | nil => exact ⟨b.transfers, rfl⟩
  | cons channel channels ih =>
    rw [List.forall_mem_cons] at hchannels
    have haddress : window.address < w.capacity := by
      have hle := h.drained_le
      have hunread := hw.unread_lt
      rw [hw.address]
      exact Nat.mod_lt _ (by omega)
    obtain ⟨transfers, hfetch⟩ := h.fetch haddress hw.fetched_le hchannels.1
    obtain ⟨transfers', hrest⟩ := ih (h.withTransfers transfers) hw hchannels.2
    rw [Worker.fetchAll, hfetch]
    dsimp only
    rw [hrest]
    refine ⟨transfers', ?_⟩
    rw [h.samples hw hchannels.1]
    rfl

/-! ### Polls -/

/-- **Why draining may fail**: a round of samples is unread, or the board has no slots and breaks
down. -/
def Fails (drained capacity : Nat) (e : Error) : Prop :=
  (∃ unread, e = .overflow drained unread capacity) ∨ capacity = 0 ∧ e = .workerCrashed

/-- What a poll may lead to: samples that follow those of before, in a chunk, or an end. -/
def Progress.Lossless (w : Worker) (stop : Bool) : Progress × Board → Prop
  | (.idle, b) => Draining w b
  | (.delivered chunk next, b) =>
    next = { w with drained := w.drained + chunk.length } ∧ Draining next b ∧
      chunk.samples =
        w.job.channels.map fun channel => samplesFrom channel w.drained chunk.length
  | (.failed e, _) => Fails w.drained w.capacity e
  | (.stopped, _) => stop = true
  | (.completed, _) => w.drained = w.job.total

/-- **A poll loses nothing.** -/
theorem Draining.poll (h : Draining w b) (stop : Bool) :
    Progress.Lossless w stop (w.poll Board.device stop b) := by
  unfold Worker.poll
  by_cases hall : w.drained ≥ w.job.total
  · rw [if_pos hall]
    have := h.drained_le
    have := h.written_le
    exact Nat.le_antisymm (by omega) hall
  -- There are samples to come, so the worker looks at the request and then at the counter.
  rw [if_neg hall]
  by_cases hstop : stop = true
  · rw [if_pos hstop]
    exact hstop
  rw [if_neg hstop]
  rcases h.read_cases with hread | ⟨hzero, hcrashed⟩
  case inr =>
    rcases hread : Board.device.handle b (.read w.job.counterAddr) with ⟨answer, b'⟩
    rw [hread] at hcrashed
    subst hcrashed
    exact .inr ⟨h.capacity.trans hzero, rfl⟩
  rw [hread]
  dsimp only
  have hticked := h.ticked
  have hwindow := hticked.window
  cases hw : w.window (UInt32.ofNat b.ticked.count) with
  | error e =>
    rw [hw] at hwindow
    exact .inl hwindow
  | ok window? =>
    cases window? with
    | none => exact hticked
    | some window =>
      rw [hw] at hwindow
      obtain ⟨transfers, hfetch⟩ := hticked.fetchAll hwindow hticked.channels
      dsimp only
      rw [Worker.drain, hfetch]
      exact ⟨rfl, (hticked.withTransfers transfers).advance hwindow.end_le, rfl⟩

/-! ### Runs -/

/-- The samples that chunks carry for the readout in place `k`. -/
def delivered (chunks : List Chunk) (k : Nat) : List Sample :=
  chunks.flatMap fun chunk => chunk.samples.getD k []

/-- The number of samples that chunks carry for each readout. -/
def total : List Chunk → Nat
  | [] => 0
  | chunk :: chunks => chunk.length + total chunks

/-- What a run of polls leads to. -/
structure Lossless (w : Worker) (stops : List Bool) (chunks : List Chunk) (outcome : Outcome) :
    Prop where
  samples : ∀ k channel, w.job.channels[k]? = some channel →
    delivered chunks k = samplesFrom channel w.drained (total chunks)
  lists : ∀ chunk ∈ chunks, chunk.samples.length = w.job.channels.length
  completed : outcome = .completed → w.drained + total chunks = w.job.total
  stopped : outcome = .stopped → true ∈ stops
  failed : ∀ e, outcome = .failed e → Fails (w.drained + total chunks) w.capacity e

theorem samplesFrom_append (channel first length length' : Nat) :
    samplesFrom channel first length ++ samplesFrom channel (first + length) length' =
      samplesFrom channel first (length + length') := by
  rw [samplesFrom, samplesFrom, samplesFrom, ← List.map_append, List.range'_append_1]

/-- A run in which nothing is delivered. -/
theorem lossless_nil {stops : List Bool} {outcome : Outcome}
    (completed : outcome = .completed → w.drained = w.job.total)
    (stopped : outcome = .stopped → true ∈ stops)
    (failed : ∀ e, outcome = .failed e → Fails w.drained w.capacity e) :
    Lossless w stops [] outcome where
  samples _ _ _ := rfl
  lists := by simp
  completed := completed
  stopped := stopped
  failed := failed

/-- A chunk in front of a run that goes on behind it. -/
theorem Lossless.cons {chunk : Chunk} {chunks : List Chunk} {stop : Bool} {stops : List Bool}
    {outcome : Outcome}
    (h : Lossless { w with drained := w.drained + chunk.length } stops chunks outcome)
    (hsamples : chunk.samples =
      w.job.channels.map fun channel => samplesFrom channel w.drained chunk.length) :
    Lossless w (stop :: stops) (chunk :: chunks) outcome where
  samples k channel hk := by
    have hchunk : chunk.samples.getD k [] = samplesFrom channel w.drained chunk.length := by
      simp [hsamples, hk]
    have hrest := h.samples k channel hk
    rw [delivered] at hrest ⊢
    rw [List.flatMap_cons, hchunk, hrest, samplesFrom_append]
    simp [total]
  lists := by
    rw [List.forall_mem_cons, hsamples, List.length_map]
    exact ⟨rfl, h.lists⟩
  completed hcompleted := by
    have := h.completed hcompleted
    rw [total]
    dsimp only at this
    omega
  stopped hstopped := List.mem_cons_of_mem _ (h.stopped hstopped)
  failed e hfailed := by
    have := h.failed e hfailed
    simpa [total, Nat.add_assoc] using this

/-- **A run of polls loses nothing.** -/
theorem Draining.run (h : Draining w b) (stops : List Bool) :
    Lossless w stops (w.run Board.device stops b).1 (w.run Board.device stops b).2.1 := by
  induction stops generalizing w b with
  | nil => exact lossless_nil (by simp [Worker.run]) (by simp [Worker.run]) (by simp [Worker.run])
  | cons stop stops ih =>
    have hpoll := h.poll stop
    rw [Worker.run]
    rcases hstep : w.poll Board.device stop b with ⟨progress, b'⟩
    rw [hstep] at hpoll
    cases progress with
    | idle =>
      have hrest := ih hpoll
      exact { hrest with stopped := fun hs => List.mem_cons_of_mem _ (hrest.stopped hs) }
    | delivered chunk next =>
      obtain ⟨rfl, hnext, hsamples⟩ := hpoll
      exact (ih hnext).cons hsamples
    | failed e =>
      refine lossless_nil (by simp) (by simp) fun e' he' => ?_
      cases he'
      exact hpoll
    | stopped =>
      have hstop : stop = true := hpoll
      exact lossless_nil (by simp) (fun _ => by simp [hstop]) (by simp)
    | completed => exact lossless_nil (fun _ => hpoll) (by simp) (by simp)

/-! ### From the start of a readout -/

theorem begin_eq {config : Config} {job : Job} (hintact : b.poisoned = false)
    (hcounter : job.counterAddr = b.counterAddr) (hinside : b.counterAddr.toNat < 1024) :
    Worker.begin Board.device config job b =
      (.ok { job, config, capacity := b.capacity }, b.begun) := by
  have hwrite : b.write job.counterAddr 0 = (.ok (), { b with
      memory := b.memory.setIfInBounds b.counterAddr.toNat 0
      count := 0
      written := 0 * b.samplesPerCount }) := by
    have hdepth : ¬ b.counterAddr.toNat ≥ dataMemoryDepth := Nat.not_le.2 hinside
    have hfits : ¬ UInt32.toNat 0 * b.samplesPerCount ≥ UInt64.size := by
      rw [show UInt32.toNat 0 = 0 from rfl, Nat.zero_mul]
      decide
    rw [hcounter, Board.write, if_neg (by simp [hintact]), if_neg hdepth]
    exact (if_pos rfl).trans (if_neg hfits)
  rw [Nat.zero_mul] at hwrite
  unfold Worker.begin
  dsimp only [Board.device, Board.handle]
  rw [hwrite]
  dsimp only
  rw [Board.start, if_neg (by simp [hintact])]
  rfl

/-- A worker that begins on a board drains it from sample 0 on. -/
theorem draining_begun {config : Config} {job : Job} (hintact : b.poisoned = false)
    (hstalled : b.stalled = false) (hrate : b.samplesPerCount = config.samplesPerCount)
    (hcounter : job.counterAddr = b.counterAddr) (hinside : b.counterAddr.toNat < 1024)
    (hchannels : ∀ channel ∈ job.channels, channel < b.channels)
    (hlimit : b.limit * config.samplesPerCount ≤ job.total) (htotal : job.total < UInt64.size) :
    Draining { job, config, capacity := b.capacity } b.begun := by
  rw [← hrate] at hlimit
  exact {
    recording := Board.recording_begun hintact hstalled hinside (Nat.lt_of_le_of_lt hlimit htotal)
    capacity := rfl
    samplesPerCount := hrate.symm
    counterAddr := hcounter
    channels := hchannels
    limit_le := hlimit
    drained_le := Nat.le_refl 0 }

end PulseProcessor.Readout
