import PulseProcessor.Proofs.Readout.Draining

/-! # The windows of a run

A worker takes its windows from readings of the counter, and the readings may be anything: nothing
here asks them to go up, or the device to be a board.  Until its last window a worker has drained an
even number of samples, and never more than there are to come (`Worker.Regular`).  That is all a
reading needs to meet for the window that follows from it to be in order (`Worker.Cuts`), and
draining the window keeps it up.

Padding is what could lead out of the buffers.  A window is shorter than a buffer, so there is room
for one more sample, and a window that is fetched with padding goes around the end of the buffer as
any other does (`Worker.fetch_logged`).
-/

namespace PulseProcessor

/-! ### The transfers that are asked for -/

/-- The transfer that a request asks for. -/
def Request.transfers : Request → List Transfer
  | .transfer channel address length _ => [⟨channel, address, length⟩]
  | _ => []

/-- A device with a log of the transfers it has been asked for. -/
def Device.logged {σ : Type} (device : Device σ) : Device (σ × List Transfer) where
  handle x r := ((device.handle x.1 r).1, (device.handle x.1 r).2, x.2 ++ r.transfers)

/-- **The transfer can be carried out in a buffer of `capacity` samples.**  A buffer of even size is
read in pairs. -/
structure Transfer.Inside (t : Transfer) (capacity : Nat) : Prop where
  length_pos : 1 ≤ t.length
  end_le : t.address + t.length ≤ capacity
  paired : capacity % 2 = 0 → t.address % 2 = 0 ∧ t.length % 2 = 0

namespace Readout

variable {σ α : Type} {device : Device σ} {w : Worker}

/-- A step with the log does what it does without, and logs transfers that can be carried out. -/
def Logged (capacity : Nat) (log : List Transfer) (r : α × σ) (r' : α × σ × List Transfer) : Prop :=
  ∃ new, r' = (r.1, r.2, log ++ new) ∧ ∀ t ∈ new, t.Inside capacity

/-! ### One reading -/

/-- The count of samples that a reading of the counter stands for. -/
def Worker.countAt (w : Worker) (reading : UInt32) : Nat :=
  min (reading.toNat * w.config.samplesPerCount) w.job.total

/-- A stride of samples is unread, or all that are missing. -/
def Worker.Due (w : Worker) (reading : UInt32) : Prop :=
  min (w.drained + w.config.strideFor w.capacity) w.job.total ≤ w.countAt reading

/-- **The worker has drained an even number of samples, or all of them.** -/
structure Worker.Regular (w : Worker) : Prop where
  drained_le : w.drained ≤ w.job.total
  even : w.drained < w.job.total → w.drained % 2 = 0

/-- **The worker may cut off a window** of this count, address and length. -/
structure Worker.Cuts (w : Worker) (count address length : Nat) : Prop where
  drained_lt : w.drained < w.job.total
  address_eq : address = w.drained % w.capacity
  length_pos : 1 ≤ length
  length_lt : length < w.capacity
  count_le : count ≤ w.job.total
  last : count = w.job.total → w.drained + length = count
  /-- In front of the last window one sample may be left. -/
  before_last : count ≠ w.job.total → length % 2 = 0 ∧
    (w.drained + length = count ∨ w.drained + length + 1 = count)

/-- The worker behind a window. -/
def Worker.advance (w : Worker) (length : Nat) : Worker := { w with drained := w.drained + length }

namespace Worker

theorem strideFor_pos (w : Worker) : 1 ≤ w.config.strideFor w.capacity := Nat.le_max_left ..

/-- A window begins behind what has been drained: the count of a reading that calls for it is not
below. -/
theorem Regular.drained_le_countAt (h : w.Regular) {reading : UInt32} (hdue : w.Due reading) :
    w.drained ≤ w.countAt reading := by
  have hle := h.drained_le
  have hstride := w.strideFor_pos
  unfold Due at hdue
  omega

/-- The length that a window has at a count. -/
def lengthAt (w : Worker) (count : Nat) : Nat :=
  if count = w.job.total then count - w.drained
  else count - w.drained - (count - w.drained) % 2

theorem window_eq_some {reading : UInt32} {window : Window}
    (h : w.window reading = .ok (some window)) :
    w.Due reading ∧ w.countAt reading - w.drained < w.capacity ∧
      window.length = w.lengthAt window.count ∧ window.length ≠ 0 ∧
      window.count = w.countAt reading ∧ window.address = w.drained % w.capacity ∧
      window.fetched = window.length + window.length % 2 := by
  unfold Worker.window at h
  rw [Due, countAt]
  generalize min (reading.toNat * w.config.samplesPerCount) w.job.total = count at h ⊢
  dsimp only at h
  by_cases hfew : count < min (w.drained + w.config.strideFor w.capacity) w.job.total
  · rw [if_pos hfew] at h
    cases h
  rw [if_neg hfew] at h
  by_cases hover : count - w.drained ≥ w.capacity
  · rw [if_pos hover] at h
    cases h
  rw [if_neg hover, ← lengthAt] at h
  by_cases hzero : w.lengthAt count = 0
  · rw [if_pos hzero] at h
    cases h
  rw [if_neg hzero] at h
  cases h
  exact ⟨Nat.le_of_not_lt hfew, Nat.lt_of_not_le hover, rfl, hzero, rfl, rfl, rfl⟩

/-- **Whatever the reading, the window that follows from it is in order.** -/
theorem Regular.cuts (h : w.Regular) (hlt : w.drained < w.job.total) {reading : UInt32}
    {window : Window} (hwindow : w.window reading = .ok (some window)) :
    w.Cuts window.count window.address window.length ∧
      window.fetched = window.length + window.length % 2 := by
  obtain ⟨hdue, hroom, hlength, hsome, hcount, haddress, hfetched⟩ := window_eq_some hwindow
  have hle : window.count ≤ w.job.total := by
    rw [hcount]
    exact Nat.min_le_right ..
  have hstart := h.drained_le_countAt hdue
  rw [← hcount] at hroom hstart
  unfold lengthAt at hlength
  refine ⟨⟨hlt, haddress, by omega, ?_, hle, ?_, ?_⟩, hfetched⟩
  · split at hlength <;> omega
  · intro hall
    rw [if_pos hall] at hlength
    omega
  · intro hmore
    rw [if_neg hmore] at hlength
    omega

/-- **Draining a window leaves the worker regular.** -/
theorem Regular.advance (h : w.Regular) {count address length : Nat}
    (hcuts : w.Cuts count address length) : (w.advance length).Regular := by
  have heven := h.even hcuts.drained_lt
  have hle := hcuts.count_le
  by_cases hall : count = w.job.total
  · have hend := hcuts.last hall
    constructor
    · show w.drained + length ≤ w.job.total
      omega
    · intro hlt
      change w.drained + length < w.job.total at hlt
      omega
  · obtain ⟨hlength, hend⟩ := hcuts.before_last hall
    constructor
    · show w.drained + length ≤ w.job.total
      omega
    · intro _
      show (w.drained + length) % 2 = 0
      omega

/-- **Each window reaches a higher count than the one in front of it.** -/
theorem Cuts.count_lt {count address length count' address' length' : Nat}
    (h : w.Cuts count address length)
    (h' : (w.advance length).Cuts count' address' length') : count < count' := by
  have hlt : w.drained + length < w.job.total := h'.drained_lt
  have hpos := h'.length_pos
  have hmore : count ≠ w.job.total := by
    intro hall
    have := h.last hall
    omega
  obtain ⟨-, hend⟩ := h.before_last hmore
  by_cases hall : count' = w.job.total
  · have := h.count_le
    omega
  · obtain ⟨heven, hend'⟩ := h'.before_last hall
    change w.drained + length + length' = count' ∨ w.drained + length + length' + 1 = count' at hend'
    omega

end Worker

/-! ### Transfers -/

variable {channel address length capacity : Nat} {s : σ} {log : List Transfer}

theorem Logged.done (answer : α) : Logged capacity log (answer, s) (answer, s, log) :=
  ⟨[], by simp, by simp⟩

/-- What is done after an answer, unless the device has failed. -/
def following {β ε : Type} (r : Except ε α × σ) (fail : ε → β) (go : α → σ → β × σ) : β × σ :=
  match r with
  | (.error e, s) => (fail e, s)
  | (.ok answer, s) => go answer s

/-- What follows an answer goes on with the log of before. -/
theorem Logged.following {β ε : Type} {r : Except ε α × σ} {r' : Except ε α × σ × List Transfer}
    {fail : ε → β} {go : α → σ → β × σ} {go' : α → σ × List Transfer → β × σ × List Transfer}
    (h : Logged capacity log r r')
    (hgo : ∀ answer s log, Logged capacity log (go answer s) (go' answer (s, log))) :
    Logged capacity log (following r fail go) (following r' fail go') := by
  obtain ⟨new, rfl, hall⟩ := h
  obtain ⟨answer | answer, s⟩ := r
  · exact ⟨new, rfl, hall⟩
  · obtain ⟨new', hnew', hall'⟩ := hgo answer s (log ++ new)
    refine ⟨new ++ new', ?_, ?_⟩
    · rw [← List.append_assoc]
      exact hnew'
    · intro t ht
      rcases List.mem_append.1 ht with ht | ht
      · exact hall t ht
      · exact hall' t ht

namespace Worker

/-- A transfer with the worker's deadline. -/
def transfer (device : Device σ) (w : Worker) (channel address length : Nat) (s : σ) :
    Except DeviceError (List Word) × σ :=
  device.handle s (.transfer channel address length w.config.timeout)

/-- One transfer inside of the buffer. -/
theorem transfer_logged (h : (⟨channel, address, length⟩ : Transfer).Inside capacity) :
    Logged capacity log (w.transfer device channel address length s)
      (w.transfer device.logged channel address length (s, log)) := by
  refine ⟨[⟨channel, address, length⟩], rfl, ?_⟩
  intro t ht
  rw [List.mem_singleton.1 ht]
  exact h

theorem fetch_eq : w.fetch device channel address length s =
    if address + length ≤ w.capacity then w.transfer device channel address length s
    else following (w.transfer device channel address (w.capacity - address) s) .error
      fun front s => following (w.transfer device channel 0 (length - (w.capacity - address)) s)
        .error fun back s => (.ok (front ++ back), s) := by
  refine ite_congr rfl (fun _ => rfl) fun _ => ?_
  dsimp only [transfer]
  generalize device.handle s (.transfer channel address (w.capacity - address) _) = first
  obtain ⟨e | front, s₁⟩ := first
  · rfl
  · dsimp only [following]
    generalize device.handle s₁ (.transfer channel 0 _ _) = second
    obtain ⟨e | back, s₂⟩ := second <;> rfl

/-- **A window is fetched by transfers inside of the buffer**, also where it crosses the end. -/
theorem fetch_logged (haddress : address < w.capacity) (hpos : 1 ≤ length)
    (hle : length ≤ w.capacity)
    (hpaired : w.capacity % 2 = 0 → address % 2 = 0 ∧ length % 2 = 0) :
    Logged w.capacity log (w.fetch device channel address length s)
      (w.fetch device.logged channel address length (s, log)) := by
  rw [fetch_eq, fetch_eq]
  by_cases hinside : address + length ≤ w.capacity
  · rw [if_pos hinside, if_pos hinside]
    exact transfer_logged ⟨hpos, hinside, hpaired⟩
  rw [if_neg hinside, if_neg hinside]
  -- Up to the end of the buffer, and then from its front on.
  have hfront : (⟨channel, address, w.capacity - address⟩ : Transfer).Inside w.capacity := by
    refine ⟨?_, ?_, fun heven => ?_⟩
    · show 1 ≤ w.capacity - address
      omega
    · show address + (w.capacity - address) ≤ w.capacity
      omega
    · have := hpaired heven
      show address % 2 = 0 ∧ (w.capacity - address) % 2 = 0
      omega
  have hback : (⟨channel, 0, length - (w.capacity - address)⟩ : Transfer).Inside w.capacity := by
    refine ⟨?_, ?_, fun heven => ?_⟩
    · show 1 ≤ length - (w.capacity - address)
      omega
    · show 0 + (length - (w.capacity - address)) ≤ w.capacity
      omega
    · have := hpaired heven
      show 0 % 2 = 0 ∧ (length - (w.capacity - address)) % 2 = 0
      omega
  exact (transfer_logged hfront).following fun front s log =>
    (transfer_logged hback).following fun back s log => .done _

theorem fetchAll_cons {window : Window} {channels : List Nat} :
    w.fetchAll device window (channel :: channels) s =
      following (w.fetch device channel window.address window.fetched s) .error fun words s =>
        following (w.fetchAll device window channels s) .error fun samples s =>
          (.ok ((words.take window.length).map Sample.ofWord :: samples), s) := by
  rw [fetchAll]
  generalize w.fetch device channel window.address window.fetched s = first
  obtain ⟨e | words, s₁⟩ := first
  · rfl
  · dsimp only [following]
    generalize w.fetchAll device window channels s₁ = rest
    obtain ⟨e | samples, s₂⟩ := rest <;> rfl

/-- A window in order is fetched in order, for each of several readouts. -/
theorem fetchAll_logged {window : Window}
    (hcuts : w.Cuts window.count window.address window.length)
    (hfetched : window.fetched = window.length + window.length % 2) (hregular : w.Regular)
    (channels : List Nat) :
    Logged w.capacity log (w.fetchAll device window channels s)
      (w.fetchAll device.logged window channels (s, log)) := by
  have hlt := hcuts.length_lt
  have hpos := hcuts.length_pos
  have haddress : window.address < w.capacity := by
    rw [hcuts.address_eq]
    exact Nat.mod_lt _ (by omega)
  have hpaired : w.capacity % 2 = 0 → window.address % 2 = 0 ∧ window.fetched % 2 = 0 := by
    intro heven
    have hdrained := hregular.even hcuts.drained_lt
    have hmod := Nat.mod_mod_of_dvd w.drained (Nat.dvd_of_mod_eq_zero heven)
    rw [hcuts.address_eq]
    omega
  induction channels generalizing s log with
  | nil => exact .done _
  | cons channel channels ih =>
    rw [fetchAll_cons, fetchAll_cons]
    exact (fetch_logged haddress (by omega) (by omega) hpaired).following fun words s log =>
      ih.following fun samples s log => .done _

/-! ### Polls -/

theorem poll_eq (hmissing : w.drained < w.job.total) : w.poll device false s =
    following (α := UInt32) (device.handle s (.read w.job.counterAddr)) (.failed ∘ .ofDevice)
      fun reading s =>
        match w.window reading with
        | .error e => (.failed e, s)
        | .ok none => (.idle, s)
        | .ok (some window) =>
          following (w.fetchAll device window w.job.channels s) (.failed ∘ .ofDevice)
            fun samples s => (.delivered
              { count := window.count, address := window.address, length := window.length, samples }
              (w.advance window.length), s) := by
  rw [poll, if_neg (Nat.not_le.2 hmissing), if_neg (by decide)]
  generalize device.handle s (.read w.job.counterAddr) = answer
  obtain ⟨e | reading, s₁⟩ := answer
  · rfl
  · dsimp only [following]
    rcases w.window reading with e | _ | window
    · rfl
    · rfl
    · dsimp only [drain]
      generalize w.fetchAll device window w.job.channels s₁ = fetched
      obtain ⟨e | samples, s₂⟩ := fetched <;> rfl

/-- What a poll of a regular worker leads to. -/
def Orderly (w : Worker) : Progress → Prop
  | .delivered chunk next => w.Cuts chunk.count chunk.address chunk.length ∧
    next = w.advance chunk.length
  | _ => True

/-- **A poll of a regular worker is orderly**, and so are its transfers. -/
theorem Regular.poll (h : w.Regular) (device : Device σ) (s : σ) (log : List Transfer)
    (stop : Bool) :
    w.Orderly (w.poll device stop s).1 ∧
      Logged w.capacity log (w.poll device stop s) (w.poll device.logged stop (s, log)) := by
  by_cases hmissing : w.drained < w.job.total
  · cases stop with
    | true =>
      unfold Worker.poll
      rw [if_neg (Nat.not_le.2 hmissing), if_pos rfl, if_neg (Nat.not_le.2 hmissing), if_pos rfl]
      exact ⟨trivial, .done _⟩
    | false =>
      rw [poll_eq hmissing, poll_eq hmissing]
      have hread : Logged (α := Except DeviceError UInt32) w.capacity log
          (device.handle s (.read w.job.counterAddr))
          (device.logged.handle (s, log) (.read w.job.counterAddr)) := ⟨[], rfl, by simp⟩
      refine ⟨?_, hread.following fun reading s log => ?_⟩
      · generalize device.handle s (.read w.job.counterAddr) = answer
        obtain ⟨e | reading, s₁⟩ := answer
        · trivial
        · dsimp only [Readout.following]
          rcases hwindow : w.window reading with e | _ | window
          · trivial
          · trivial
          · dsimp only
            generalize w.fetchAll device window w.job.channels s₁ = fetched
            obtain ⟨e | samples, s₂⟩ := fetched
            · trivial
            · exact ⟨(h.cuts hmissing hwindow).1, rfl⟩
      · rcases hwindow : w.window reading with e | _ | window
        · exact .done _
        · exact .done _
        · obtain ⟨hcuts, hfetched⟩ := h.cuts hmissing hwindow
          exact (fetchAll_logged hcuts hfetched h _).following fun samples s log => .done _
  · unfold Worker.poll
    rw [if_pos (Nat.le_of_not_lt hmissing), if_pos (Nat.le_of_not_lt hmissing)]
    exact ⟨trivial, .done _⟩

/-! ### Runs -/

/-- The workers at the heads of the polls of a run. -/
def heads (device : Device σ) (w : Worker) : List Bool → σ → List Worker
  | [], _ => []
  | stop :: stops, s => w ::
    match w.poll device stop s with
    | (.idle, s) => w.heads device stops s
    | (.delivered _ next, s) => next.heads device stops s
    | _ => []

/-- Chunks that a worker may cut off one behind the other. -/
def CutsAll (w : Worker) : List Chunk → Prop
  | [] => True
  | chunk :: chunks => w.Cuts chunk.count chunk.address chunk.length ∧
    (w.advance chunk.length).CutsAll chunks

/-- Workers of a run stay regular. -/
theorem Regular.heads (h : w.Regular) {stops : List Bool} :
    ∀ w' ∈ w.heads device stops s, ∃ drained, w' = { w with drained } ∧ w'.Regular := by
  induction stops generalizing w s with
  | nil => simp [Worker.heads]
  | cons stop stops ih =>
    have horderly := (h.poll device s [] stop).1
    intro w' hw'
    rw [Worker.heads, List.mem_cons] at hw'
    rcases hw' with rfl | hw'
    · exact ⟨w'.drained, rfl, h⟩
    generalize w.poll device stop s = step at horderly hw'
    obtain ⟨progress, s₁⟩ := step
    cases progress with
    | idle => exact ih h w' hw'
    | delivered chunk next =>
      obtain ⟨hcuts, rfl⟩ := horderly
      obtain ⟨drained, rfl, hregular⟩ := ih (h.advance hcuts) w' hw'
      exact ⟨drained, rfl, hregular⟩
    | failed e => cases hw'
    | stopped => cases hw'
    | completed => cases hw'

/-- **The chunks of a run are in order, and so are its transfers.** -/
theorem Regular.run (h : w.Regular) (log : List Transfer) {stops : List Bool}
    {chunks : List Chunk} {outcome : Outcome} {s' : σ}
    (hrun : w.run device stops s = (chunks, outcome, s')) :
    w.CutsAll chunks ∧ ∃ new, w.run device.logged stops (s, log) =
      (chunks, outcome, s', log ++ new) ∧ ∀ t ∈ new, t.Inside w.capacity := by
  induction stops generalizing w s log chunks with
  | nil =>
    cases hrun
    exact ⟨trivial, [], by simp [Worker.run], by simp⟩
  | cons stop stops ih =>
    obtain ⟨horderly, new, hlogged, hnew⟩ := h.poll device s log stop
    rw [Worker.run] at hrun
    rw [Worker.run, hlogged]
    generalize w.poll device stop s = step at horderly hrun
    obtain ⟨progress, s₁⟩ := step
    cases progress with
    | idle =>
      obtain ⟨hcuts, new', hrun', hnew'⟩ := ih h (log ++ new) hrun
      rw [List.append_assoc] at hrun'
      exact ⟨hcuts, new ++ new', hrun', List.forall_mem_append.2 ⟨hnew, hnew'⟩⟩
    | delivered chunk next =>
      obtain ⟨hcuts, rfl⟩ := horderly
      dsimp only at hrun
      rcases hrest : (w.advance chunk.length).run device stops s₁ with ⟨rest, outcome', s₂⟩
      rw [hrest] at hrun
      cases hrun
      obtain ⟨hcutsAll, new', hrun', hnew'⟩ := ih (h.advance hcuts) (log ++ new) hrest
      rw [List.append_assoc] at hrun'
      refine ⟨⟨hcuts, hcutsAll⟩, new ++ new', ?_, List.forall_mem_append.2 ⟨hnew, hnew'⟩⟩
      dsimp only
      rw [hrun']
    | failed e =>
      cases hrun
      exact ⟨trivial, new, rfl, hnew⟩
    | stopped =>
      cases hrun
      exact ⟨trivial, new, rfl, hnew⟩
    | completed =>
      cases hrun
      exact ⟨trivial, new, rfl, hnew⟩

/-- The chunk in some place was cut off behind the chunks in front of it. -/
theorem CutsAll.getElem? {chunks : List Chunk} (h : w.CutsAll chunks) {k : Nat} {chunk : Chunk}
    (hk : chunks[k]? = some chunk) :
    (w.advance (total (chunks.take k))).Cuts chunk.count chunk.address chunk.length := by
  induction chunks generalizing w k with
  | nil => cases hk
  | cons first rest ih =>
    obtain ⟨hfirst, hrest⟩ := h
    cases k with
    | zero =>
      cases hk
      exact hfirst
    | succ k =>
      have hcuts := ih hrest hk
      rw [List.take_succ_cons, total, advance, ← Nat.add_assoc]
      exact hcuts

/-- Behind the window of the last count there is none. -/
theorem CutsAll.length_eq {chunks : List Chunk} (h : w.CutsAll chunks) {k : Nat} {chunk : Chunk}
    (hk : chunks[k]? = some chunk) (hlast : chunk.count = w.job.total) : k + 1 = chunks.length := by
  induction chunks generalizing w k with
  | nil => cases hk
  | cons first rest ih =>
    obtain ⟨hfirst, hrest⟩ := h
    cases k with
    | succ k => exact congrArg (· + 1) (ih hrest hk hlast)
    | zero =>
      cases hk
      cases rest with
      | nil => rfl
      | cons second rest =>
        have hend := hfirst.last hlast
        have hlt : w.drained + chunk.length < w.job.total := hrest.1.drained_lt
        omega

/-- Counts go up from chunk to chunk. -/
theorem CutsAll.pairwise {chunks : List Chunk} (h : w.CutsAll chunks) :
    chunks.Pairwise (·.count < ·.count) := by
  induction chunks generalizing w with
  | nil => exact .nil
  | cons first rest ih =>
    obtain ⟨hfirst, hrest⟩ := h
    have hpairwise := ih hrest
    refine .cons ?_ hpairwise
    cases rest with
    | nil => simp
    | cons second rest =>
      have hlt := hfirst.count_lt hrest.1
      intro chunk hchunk
      rcases List.mem_cons.1 hchunk with rfl | hchunk
      · exact hlt
      · exact Nat.lt_trans hlt (List.rel_of_pairwise_cons hpairwise hchunk)

end Worker

/-! ### From the start of a readout -/

theorem begin_eq_ok {config : Config} {job : Job} {s' : σ}
    (h : Worker.begin device config job s = (.ok w, s')) :
    w = { job, config, capacity := w.capacity } := by
  unfold Worker.begin at h
  split at h
  · cases h
  · split at h
    · cases h
    · split at h
      · cases h
      · cases h
        rfl

/-- **Windows, whatever the counter says.**  On any device and for any readings of the counter, the
chunks of a run follow one another without a gap around the buffer; each is shorter than a buffer
and ends at its count or one sample in front of it; counts go up; only the window of the last count
may have an odd length, and it is the last one.  No reading leads below what has been drained, the
sums stay within 64 bits, and every transfer lies inside of a buffer, in pairs if the buffer's size
is even. -/
theorem run_windows {config : Config} {job : Job} {s₁ s₂ : σ} {stops : List Bool}
    {chunks : List Chunk} {outcome : Outcome}
    (hbegin : Worker.begin device config job s = (.ok w, s₁)) (hcapacity : 1 ≤ w.capacity)
    (hroom : job.total + w.capacity < UInt64.size)
    (hrun : w.run device stops s₁ = (chunks, outcome, s₂)) :
    (∀ k chunk, chunks[k]? = some chunk →
      let drained := total (chunks.take k)
      chunk.address = drained % w.capacity ∧
        1 ≤ chunk.length ∧ chunk.length ≤ w.capacity - 1 ∧
        (drained + chunk.length = chunk.count ∨ drained + chunk.length = chunk.count - 1) ∧
        drained + chunk.length ≤ job.total ∧
        (chunk.length % 2 = 0 ∨ chunk.count = job.total) ∧
        (chunk.count = job.total → k + 1 = chunks.length)) ∧
      chunks.Pairwise (·.count < ·.count) ∧
      (∀ w' ∈ w.heads device stops s₁, ∀ reading, w'.Due reading →
        w'.drained ≤ w'.countAt reading ∧
          w'.drained + w'.config.strideFor w'.capacity < UInt64.size) ∧
      ∃ log, w.run device.logged stops (s₁, []) = (chunks, outcome, s₂, log) ∧
        ∀ t ∈ log, 1 ≤ t.length ∧ t.address + t.length ≤ w.capacity ∧
          (w.capacity % 2 = 0 → t.address % 2 = 0 ∧ t.length % 2 = 0) := by
  have hw := begin_eq_ok hbegin
  have hjob : w.job = job := by rw [hw]
  have hdrained : w.drained = 0 := by rw [hw]
  have hregular : w.Regular := by
    constructor
    · omega
    · omega
  obtain ⟨hcutsAll, log, hlog, hinside⟩ := hregular.run [] hrun
  refine ⟨?_, hcutsAll.pairwise, ?_, log, hlog, fun t ht => ?_⟩
  · intro k chunk hk drained
    have hcuts := hcutsAll.getElem? hk
    have haddress : chunk.address = (w.drained + drained) % w.capacity := hcuts.address_eq
    have hlt : chunk.length < w.capacity := hcuts.length_lt
    have hle : chunk.count ≤ w.job.total := hcuts.count_le
    have hlast : chunk.count = w.job.total → w.drained + drained + chunk.length = chunk.count :=
      hcuts.last
    have hbefore : chunk.count ≠ w.job.total → chunk.length % 2 = 0 ∧
        (w.drained + drained + chunk.length = chunk.count ∨
          w.drained + drained + chunk.length + 1 = chunk.count) := hcuts.before_last
    rw [hdrained, Nat.zero_add] at haddress hlast hbefore
    rw [hjob] at hle hlast hbefore
    refine ⟨haddress, hcuts.length_pos, by omega, by omega, by omega, by omega, ?_⟩
    rw [← hjob]
    exact hcutsAll.length_eq hk
  · intro w' hw' reading hdue
    obtain ⟨drained, rfl, hregular'⟩ := hregular.heads w' hw'
    refine ⟨hregular'.drained_le_countAt hdue, ?_⟩
    have hle : drained ≤ w.job.total := hregular'.drained_le
    rw [hjob] at hle
    have hstride : w.config.strideFor w.capacity ≤ w.capacity := by
      unfold Config.strideFor
      omega
    show drained + w.config.strideFor w.capacity < UInt64.size
    omega
  · have ht := hinside t ht
    exact ⟨ht.length_pos, ht.end_le, ht.paired⟩

/-- A device whose counter reads what a list says, and zero behind its end. -/
def scripted (capacity : Nat) : Device (List UInt32) where
  handle readings r :=
    match r with
    | .capacity => (.ok capacity, readings)
    | .read _ => (.ok (readings.headD 0), readings.tail)
    | .transfer _ _ length _ => (.ok (List.replicate length 0), readings)
    | .write .. | .start | .stop | .load _ => (.ok (), readings)

/-- A counter that jumps, goes back, and passes the total. -/
def wildReadings : List UInt32 := [3, 1, 7, 11, 2, 200]

/-- What it is read out for. -/
def wildJob : Job := { total := 13, counterAddr := 1, channels := [0] }

theorem run_windows_scripted : ∃ w,
    Worker.begin (scripted 6) { stride := some 2 } wildJob wildReadings = (.ok w, wildReadings) ∧
    1 ≤ w.capacity ∧ wildJob.total + w.capacity < UInt64.size ∧ ∃ chunks,
      w.run (scripted 6) (List.replicate 7 false) wildReadings = (chunks, .completed, []) ∧
      chunks.map (fun c => (c.count, c.address, c.length)) =
        [(3, 0, 2), (7, 2, 4), (11, 0, 4), (13, 4, 3)] ∧
      chunks.Pairwise (·.count < ·.count) ∧ ∃ log,
        w.run (scripted 6).logged (List.replicate 7 false) (wildReadings, []) =
          (chunks, .completed, [], log) ∧
        ∀ t ∈ log, 1 ≤ t.length ∧ t.address + t.length ≤ 6 ∧
          (6 % 2 = 0 → t.address % 2 = 0 ∧ t.length % 2 = 0) := by
  let w₀ : Worker := { job := wildJob, config := { stride := some 2 }, capacity := 6 }
  have hend : (w₀.run (scripted 6) (List.replicate 7 false) wildReadings).2 = (.completed, []) ∧
      (w₀.run (scripted 6) (List.replicate 7 false) wildReadings).1.map
        (fun c => (c.count, c.address, c.length)) =
          [(3, 0, 2), (7, 2, 4), (11, 0, 4), (13, 4, 3)] := by
    decide +kernel
  rcases hchunks : w₀.run (scripted 6) (List.replicate 7 false) wildReadings with ⟨chunks, rest⟩
  rw [hchunks] at hend
  obtain ⟨rfl, hshape⟩ := hend
  have hbegin : Worker.begin (scripted 6) { stride := some 2 } wildJob wildReadings =
      (.ok w₀, wildReadings) := rfl
  obtain ⟨-, hcounts, -, log, hlog, hinside⟩ :=
    run_windows hbegin (by decide) (by decide) hchunks
  exact ⟨w₀, hbegin, by decide, by decide, chunks, hchunks, hshape, hcounts, log, hlog, hinside⟩

end Readout
end PulseProcessor
