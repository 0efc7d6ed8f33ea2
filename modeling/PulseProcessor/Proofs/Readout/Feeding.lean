import PulseProcessor.Proofs.Readout.Averaging
import PulseProcessor.Proofs.Readout.Sessions
import PulseProcessor.Readout.Source

/-! # What a session sends

The thread of a session on a recording board sends the samples of the readouts in chunks that follow
one another, as long as nobody asks it to stop; and where it finishes without a failure, it has sent
all samples of its job (`Feeds`).  Every turn keeps this up, whatever the client has taken in
between.  When the client then finds nothing more, it has taken all samples (`Feeds.all_taken`).
-/

namespace PulseProcessor.Readout

open Exchange

variable {job : Job} {x y : Session Board} {e : Exchange} {chunks : List Chunk} {chunk : Chunk}

theorem total_concat (chunks : List Chunk) (chunk : Chunk) :
    total (chunks ++ [chunk]) = total chunks + chunk.length := by
  induction chunks with
  | nil => exact Nat.add_comm ..
  | cons first chunks ih => rw [List.cons_append, total, total, ih, Nat.add_assoc]

/-- One more chunk behind the others. -/
theorem CutFrom.concat {sample : Nat → Nat → Sample} {readouts : List Nat} {n : Nat}
    (h : CutFrom sample readouts n chunks) (hchunk : chunk.samples = readouts.map fun readout =>
      (List.range' (n + total chunks) chunk.length).map (sample readout)) :
    CutFrom sample readouts n (chunks ++ [chunk]) := by
  induction chunks generalizing n with
  | nil => exact ⟨hchunk, trivial⟩
  | cons first chunks ih =>
    rw [total, ← Nat.add_assoc] at hchunk
    exact ⟨h.1, ih h.2 hchunk⟩

/-- **A session that feeds its client with the samples of a job**, going by what its worker has
sent so far. -/
structure Feeds (job : Job) (x : Session Board) (e : Exchange) : Prop where
  tracks : Tracks x e
  device : x.source.toDevice = Board.device
  unstopped : e.stopped = false
  cut : CutFrom Sample.simulated job.channels 0 e.sent
  engaged : ∀ job', x.thread = some (.engaged job') → e.sent = [] ∧
    ∃ w b, Worker.begin Board.device x.config job' x.state = (.ok w, b) ∧ Draining w b ∧
      w.job = job ∧ w.drained = 0
  polling : ∀ w, x.thread = some (.polling w) →
    Draining w x.state ∧ w.job = job ∧ w.drained = total e.sent
  ended : x.thread = none ∨ x.thread = some .leaving → e.failure = none →
    total e.sent = job.total

namespace Feeds

theorem stopRequested (h : Feeds job x e) : x.client.stopRequested = false := by
  rw [← h.tracks.client, h.tracks.sound.stopRequested_eq]
  exact h.unstopped

/-- The worker is at work. -/
theorem of_polling {w : Worker} (htracks : Tracks x e) (hdevice : x.source.toDevice = Board.device)
    (hunstopped : e.stopped = false) (hcut : CutFrom Sample.simulated job.channels 0 e.sent)
    (hthread : x.thread = some (.polling w)) (hw : Draining w x.state) (hjob : w.job = job)
    (hdrained : w.drained = total e.sent) : Feeds job x e where
  tracks := htracks
  device := hdevice
  unstopped := hunstopped
  cut := hcut
  engaged job' hengaged := by cases hthread.symm.trans hengaged
  polling w' hpolling := by
    cases hthread.symm.trans hpolling
    exact ⟨hw, hjob, hdrained⟩
  ended hover := by
    rcases hover with hover | hover
    · cases hthread.symm.trans hover
    · cases hthread.symm.trans hover

/-- The worker has sent what it sends. -/
theorem of_ended (htracks : Tracks x e) (hdevice : x.source.toDevice = Board.device)
    (hunstopped : e.stopped = false) (hcut : CutFrom Sample.simulated job.channels 0 e.sent)
    (hthread : x.thread = none ∨ x.thread = some .leaving)
    (hall : e.failure = none → total e.sent = job.total) : Feeds job x e where
  tracks := htracks
  device := hdevice
  unstopped := hunstopped
  cut := hcut
  engaged job' hengaged := by
    rcases hthread with hthread | hthread
    · cases hthread.symm.trans hengaged
    · cases hthread.symm.trans hengaged
  polling w hpolling := by
    rcases hthread with hthread | hthread
    · cases hthread.symm.trans hpolling
    · cases hthread.symm.trans hpolling
  ended _ := hall

/-- The worker begins. -/
theorem turn_engaged (h : Feeds job x e) {job' : Job} (hthread : x.thread = some (.engaged job')) :
    Feeds job x.turn.2 (e.turned x) := by
  obtain ⟨hsent, w, b, hbegin, hdraining, hjob, hdrained⟩ := h.engaged job' hthread
  have hbegin' : Worker.begin x.source.toDevice x.config job' x.state = (.ok w, b) := by
    rw [h.device]
    exact hbegin
  have htracks := h.tracks.turn.1
  have hturn := Session.turn_engaged hthread
  have hturned : e.turned x = e := by
    rw [turned, hthread]
    dsimp only
    rw [hbegin']
  rw [hbegin'] at hturn
  rw [hturned, hturn] at htracks ⊢
  exact of_polling htracks h.device h.unstopped h.cut rfl hdraining hjob
    (by rw [hdrained, hsent]; rfl)

/-- **The worker polls**, and what it sends follows what it has sent before. -/
theorem turn_polling (h : Feeds job x e) {w : Worker} (hthread : x.thread = some (.polling w)) :
    Feeds job x.turn.2 (e.turned x) := by
  obtain ⟨hdraining, hjob, hdrained⟩ := h.polling w hthread
  have htracks := h.tracks.turn.1
  have hturn := Session.turn_polling hthread
  have hturned : e.turned x =
      e.posted (w.poll x.source.toDevice x.client.stopRequested x.state).1 := by
    rw [turned, hthread]
  have hpoll := hdraining.poll false
  rw [h.device, h.stopRequested] at hturn hturned
  rw [hturned, hturn] at htracks ⊢
  generalize w.poll Board.device false x.state = step at htracks hpoll ⊢
  obtain ⟨progress, b⟩ := step
  cases progress with
  | idle => exact of_polling htracks h.device h.unstopped h.cut hthread hpoll hjob hdrained
  | delivered chunk next =>
    obtain ⟨rfl, hnext, hsamples⟩ := hpoll
    have hcut : CutFrom Sample.simulated job.channels 0 (e.sent ++ [chunk]) :=
      h.cut.concat (by rw [hsamples, hjob, hdrained, Nat.zero_add]; rfl)
    have hsent : w.drained + chunk.length = total (e.sent ++ [chunk]) := by
      rw [hdrained, total_concat]
    exact of_polling htracks h.device h.unstopped hcut rfl hnext hjob hsent
  | failed error =>
    exact of_ended htracks h.device h.unstopped h.cut (.inr rfl) fun hnone => by cases hnone
  | stopped => exact Bool.noConfusion hpoll
  | completed =>
    have hall : w.drained = w.job.total := hpoll
    rw [hdrained, hjob] at hall
    exact of_ended htracks h.device h.unstopped h.cut (.inr rfl) fun _ => hall

/-- **Every turn of the thread keeps it up.** -/
theorem turn (h : Feeds job x e) : Feeds job x.turn.2 (e.turned x) := by
  cases hthread : x.thread with
  | none =>
    rw [Session.turn_of_finished hthread, turned, hthread]
    exact h
  | some thread =>
    cases thread with
    | engaged job' => exact h.turn_engaged hthread
    | polling w => exact h.turn_polling hthread
    | leaving =>
      have htracks := h.tracks.turn.1
      have hturned : e.turned x = e.left := by rw [turned, hthread]
      rw [hturned, Session.turn_leaving hthread] at htracks ⊢
      exact of_ended htracks h.device h.unstopped h.cut (.inl rfl) (h.ended (.inr hthread))

/-- Turns of the thread send more, and tell the client nothing. -/
theorem turns (h : Feeds job x e) (n : Nat) :
    ∃ e', Feeds job (x.turns n) e' ∧ e'.answers = e.answers := by
  induction n generalizing x e with
  | zero => exact ⟨e, h, rfl⟩
  | succ n ih =>
    obtain ⟨e', hfeeds, hanswers⟩ := ih h.turn
    exact ⟨e', hfeeds, hanswers.trans h.tracks.turn.2.answers⟩

/-- What the client takes does not matter. -/
theorem poll (h : Feeds job x e) :
    Feeds job x.poll.2 (e.polled x.poll.2.client [x.poll.1]) where
  tracks := h.tracks.poll.2
  device := h.device
  unstopped := h.unstopped
  cut := h.cut
  engaged := h.engaged
  polling := h.polling
  ended := h.ended

/-- **A client that finds nothing, where the worker has finished, has taken all samples.** -/
theorem all_taken (h : Feeds job x e) (hfinished : x.thread = none)
    (huntold : failures e.answers = []) (hnone : x.poll.1 = .ok []) :
    taken e.answers = e.sent ∧ total e.sent = job.total := by
  have hpoll : e.client.poll.1 = .ok [] := by
    rw [h.tracks.client]
    exact hnone
  obtain ⟨htaken, hsound⟩ := h.tracks.sound.of_poll_nil huntold hpoll
  exact ⟨htaken, h.ended (.inl hfinished) hsound⟩

end Feeds

/-- **A session that is launched on a board feeds its client.** -/
theorem feeds_launched {w : Worker} {b : Board} (hx : Tracks x e)
    (hdevice : x.source.toDevice = Board.device) (hlaunch : x.launch job = (.ok (), y))
    (hbegin : Worker.begin Board.device x.config job x.state = (.ok w, b)) (hw : Draining w b)
    (hjob : w.job = job) (hdrained : w.drained = 0) : Feeds job y fresh := by
  have htracks := hx.launch job
  rw [hlaunch] at htracks
  rw [Session.launch] at hlaunch
  cases hstart : x.client.start with
  | error error =>
    rw [hstart] at hlaunch
    cases hlaunch
  | ok client =>
    rw [hstart] at hlaunch
    cases hlaunch
    exact {
      tracks := htracks.2
      device := hdevice
      unstopped := rfl
      cut := trivial
      engaged := by
        rintro _ ⟨⟩
        exact ⟨rfl, w, b, hbegin, hw, hjob, hdrained⟩
      polling := by rintro _ ⟨⟩
      ended := by rintro (hended | hended) <;> cases hended }

end PulseProcessor.Readout
