import PulseProcessor.CommandLine.Streaming
import PulseProcessor.Proofs.Averager.Acquiring
import PulseProcessor.Proofs.CommandLine.Desk
import PulseProcessor.Proofs.Readout.Feeding

/-! # What a stream adds up to

A stream takes up the chunks that a session has sent, round after round, and the scheduler of the
desk may give the session's worker any number of turns in between.  What has been taken up so far is
what the client has been told, and when a round finds nothing behind a worker that has finished, it
is all that the worker has sent (`Stream.follow_averages`).  A run that succeeds has therefore taken
up all samples, and its averages are those of the experiment (`Stream.gather_averages`): they say
nothing of the capacity of the board, the steps of its counter, the stride or the scheduler
(`Stream.averages_uncut`).
-/

namespace PulseProcessor.CommandLine

open Readout (Averages CutFrom Exchange Feeds Job Session Source Timings Worker failures taken
  total)
open Readout.Averages (binned)

/-- The program of an experiment is the program of its acquisition, with some map. -/
theorem Experiment.build_eq_ok {e : Experiment} {built : AveragerProgram} {d d' : Desk}
    (h : Desk.perform (e.build Desk.host) d = (.ok built, d')) :
    ∃ map, e.acquisition.build map = .ok built := by
  obtain ⟨map, _, -, hbuild⟩ := Desk.perform_bind_eq_ok h
  exact ⟨map, Desk.perform_attempt_eq_ok hbuild⟩

namespace Stream

variable {σ : Type} {source : Source σ} {s s' : σ} {settings : Stream} {built : AveragerProgram}
  {b b' : Board} {summary summary' : Summary} {d d' : Desk} {pause begun n : Nat}

/-! ### Rounds -/

/-- Timing chunks changes nothing for the session. -/
theorem giveTurns_fst (n : Nat) (x : Session σ) (timings : Timings) (d : Desk) :
    (giveTurns Desk.host begun n x timings d).1.1 = x.turns n := by
  induction n generalizing x timings d with
  | zero => rfl
  | succ n ih =>
    rw [giveTurns, Session.turns]
    rcases x.turn with ⟨_ | chunk, x'⟩
    · exact ih x' timings d
    · exact ih x' _ _

/-- The worker gets some turns. -/
theorem yield_fst (pause begun : Nat) (x : Session σ) (timings : Timings) (d : Desk) :
    ∃ k, (yield Desk.host pause begun x timings d).1.1 = x.turns k :=
  ⟨_, giveTurns_fst _ x timings _⟩

/-- **One round** of a stream that ends well: the worker gets some turns before and behind the look
at its end, and the chunks sent so far are taken up.  The round is the last if the worker had
finished and there is nothing to take up. -/
theorem follow_succ_eq_ok {x x' : Session σ}
    (h : Desk.perform (follow Desk.host pause begun (n + 1) x summary) d =
      (.ok (summary', x'), d')) : ∃ k k' chunks,
    ((x.turns k).turns k').poll.1 = .ok chunks ∧
      ((x.turns k).client.done = true ∧ chunks = [] ∧ summary'.averages = summary.averages ∨
        ∃ timings d₁, Desk.perform (follow Desk.host pause begun n ((x.turns k).turns k').poll.2
          ⟨chunks.foldl Averages.add summary.averages, timings⟩) d₁ =
            (.ok (summary', x'), d')) := by
  obtain ⟨⟨x₁, timings₁⟩, d₁, hfirst, h⟩ := Desk.perform_bind_eq_ok h
  obtain ⟨k, hk⟩ := yield_fst pause begun x summary.timings d
  obtain rfl : x₁ = x.turns k := by
    rw [Desk.perform_lift] at hfirst
    rw [← hk, Except.ok.inj (Prod.mk.inj hfirst).1]
  obtain ⟨⟨x₂, timings₂⟩, d₂, hsecond, h⟩ := Desk.perform_bind_eq_ok h
  obtain ⟨k', hk'⟩ := yield_fst pause begun (x.turns k) timings₁ d₁
  obtain rfl : x₂ = (x.turns k).turns k' := by
    rw [Desk.perform_lift] at hsecond
    rw [← hk', Except.ok.inj (Prod.mk.inj hsecond).1]
  obtain ⟨chunks, d₃, hchunks, h⟩ := Desk.perform_bind_eq_ok h
  refine ⟨k, k', chunks, Desk.perform_attempt_eq_ok hchunks, ?_⟩
  dsimp only at h
  by_cases hlast : ((x.turns k).client.done && chunks.isEmpty) = true
  · rw [if_pos hlast] at h
    cases h
    obtain ⟨hdone, hempty⟩ := Bool.and_eq_true_iff.1 hlast
    obtain rfl := List.isEmpty_iff.1 hempty
    exact .inl ⟨hdone, rfl, rfl⟩
  · rw [if_neg hlast] at h
    obtain ⟨⟨⟩, d₄, -, h⟩ := Desk.perform_bind_eq_ok h
    exact .inr ⟨timings₂, d₄, h⟩

/-- **A stream that ends well has taken up all samples**, in the chunks that the worker has sent. -/
theorem follow_averages {job : Job} {x x' : Session Board} {e : Exchange} {nothing : Averages}
    (h : Feeds job x e) (huntold : failures e.answers = [])
    (hsum : summary.averages = (taken e.answers).foldl Averages.add nothing)
    (hfollow : Desk.perform (follow Desk.host pause begun n x summary) d =
      (.ok (summary', x'), d')) :
    ∃ chunks, CutFrom Sample.simulated job.channels 0 chunks ∧ total chunks = job.total ∧
      summary'.averages = chunks.foldl Averages.add nothing := by
  induction n generalizing x e summary d with
  | zero => cases hfollow
  | succ n ih =>
    obtain ⟨k, k', chunks, hpoll, hround⟩ := follow_succ_eq_ok hfollow
    obtain ⟨e₁, hfirst, hanswers₁⟩ := h.turns k
    obtain ⟨e₂, hsecond, hanswers₂⟩ := hfirst.turns k'
    have hanswers : e₂.answers = e.answers := hanswers₂.trans hanswers₁
    rcases hround with ⟨hdone, rfl, haverages⟩ | ⟨timings, d₁, hrest⟩
    · -- The worker had finished, so it has done nothing since.
      have hfinished : (x.turns k).thread = none := by
        rw [hfirst.tracks.done_eq] at hdone
        exact Option.isNone_iff_eq_none.1 hdone
      rw [Session.turns_of_finished hfinished] at hsecond hpoll
      obtain ⟨htaken, htotal⟩ := hsecond.all_taken hfinished (hanswers ▸ huntold) hpoll
      refine ⟨e₂.sent, hsecond.cut, htotal, ?_⟩
      rw [haverages, hsum, ← htaken, hanswers]
    · have hpolled := hsecond.poll
      rw [hpoll] at hpolled
      refine ih hpolled ?_ ?_ hrest
      · show failures (e₂.answers ++ [.ok chunks]) = []
        rw [hanswers, Readout.failures_append, huntold]
        rfl
      · show chunks.foldl Averages.add summary.averages =
          (taken (e₂.answers ++ [.ok chunks])).foldl Averages.add nothing
        rw [hanswers, Readout.taken_append, List.foldl_append, ← hsum, Readout.taken_ok,
          Readout.taken_nil, List.append_nil]

/-! ### Whole runs -/

theorem lt_channels (readouts : List Nat) (n : Nat) :
    (∀ channel ∈ readouts, channel < (readouts.map (· + 1)).foldl max n) ∧
      n ≤ (readouts.map (· + 1)).foldl max n := by
  induction readouts generalizing n with
  | nil => simp
  | cons readout readouts ih =>
    obtain ⟨hbelow, hle⟩ := ih (max n (readout + 1))
    rw [List.map_cons, List.foldl_cons, List.forall_mem_cons]
    exact ⟨⟨by omega, hbelow⟩, by omega⟩

theorem demand_eq_ok {r : Request} {answer : r.Answer}
    (h : Desk.perform (demand source r s) d = (.ok (answer, s'), d')) :
    source.handle s r = (.ok answer, s') := by
  unfold demand at h
  rcases hanswer : source.handle s r with ⟨e | answer', s₁⟩
  · rw [hanswer] at h
    cases h
  · rw [hanswer] at h
    cases h
    rfl

/-- The tuning of the worker. -/
def config (settings : Stream) : Readout.Config :=
  { stride := settings.stride, timeout := settings.timeout }

/-- The job that the worker is given. -/
def job (settings : Stream) (built : AveragerProgram) : Job :=
  ⟨built.totalCount, built.counterAddr, settings.readouts⟩

/-- What has been done when a stream has been gathered: a program was loaded, a readout has been
launched, and its chunks have been taken up to the end. -/
theorem gather_eq_ok {board : Board}
    (h : Desk.perform (gather Desk.host .board settings built board) d =
      (.ok (begun, summary, b'), d')) : ∃ words loaded x x' n d₁,
    board.load words = (.ok (), loaded) ∧
    ({ source := .board, config := settings.config, state := loaded } : Session Board).launch
      (settings.job built) = (.ok (), x) ∧
    Desk.perform (follow Desk.host settings.pollPause begun n x
      { averages := Averages.empty settings.readouts.length built.firstPoints.length
          settings.experiment.acquisition.reps.toNat }) d₁ = (.ok (summary, x'), d') := by
  obtain ⟨words, d₁, -, h⟩ := Desk.perform_bind_eq_ok h
  obtain ⟨⟨_, loaded⟩, d₂, hload, h⟩ := Desk.perform_bind_eq_ok h
  obtain ⟨⟨capacity, _⟩, d₃, hcapacity, h⟩ := Desk.perform_bind_eq_ok h
  cases demand_eq_ok hcapacity
  obtain ⟨⟨⟩, d₄, -, h⟩ := Desk.perform_bind_eq_ok h
  obtain ⟨now, d₅, -, h⟩ := Desk.perform_bind_eq_ok h
  obtain ⟨⟨⟩, d₆, hlaunched, h⟩ := Desk.perform_bind_eq_ok h
  obtain ⟨n, d₇, -, h⟩ := Desk.perform_bind_eq_ok h
  obtain ⟨⟨summary', x'⟩, d₈, hfollow, h⟩ := Desk.perform_bind_eq_ok h
  cases h
  exact ⟨words, loaded, _, x', n, d₇, demand_eq_ok hload,
    Prod.ext (Desk.perform_attempt_eq_ok hlaunched) rfl, hfollow⟩

theorem load_eq_ok {words : List Word} (h : b.load words = (.ok (), b')) :
    b' = { b with program := words } := by
  unfold Board.load at h
  split at h
  · cases h
  · split at h <;> cases h
    rfl

/-- The board of a stream when the program has been loaded. -/
def loadedBoard (settings : Stream) (built : AveragerProgram) (words : List Word) : Board :=
  { simulatedBoard settings built with program := words }

/-- The worker of a stream before it drains anything. -/
def firstWorker (settings : Stream) (built : AveragerProgram) : Worker :=
  { job := settings.job built, config := settings.config, capacity := settings.capacity }

/-- An experiment asks for shots, and publishes their count in data memory. -/
theorem shots_of_build {map : ChannelMap}
    (h : settings.experiment.acquisition.build map = .ok built) :
    built.counterAddr.toNat < 1024 ∧ 0 < built.totalCount := by
  obtain ⟨hreps, htotal, hcounter, -⟩ := Acquisition.readout_of_build h
  rw [hcounter, htotal]
  exact ⟨by decide, Nat.mul_pos hreps (Nat.le_max_left ..)⟩

/-- **The worker of a stream begins to drain its board.** -/
theorem begin_loadedBoard (settings : Stream) (words : List Word)
    (hcount : built.totalCount < UInt32.size) (hinside : built.counterAddr.toNat < 1024) :
    Worker.begin Board.device settings.config (settings.job built)
        (settings.loadedBoard built words) =
      (.ok (settings.firstWorker built), (settings.loadedBoard built words).begun) ∧
    Readout.Draining (settings.firstWorker built) (settings.loadedBoard built words).begun := by
  have hcounts : UInt32.size ≤ UInt64.size := by decide
  have hrate : built.totalCount * settings.config.samplesPerCount ≤ built.totalCount :=
    Nat.le_of_eq (Nat.mul_one _)
  exact ⟨Readout.begin_eq rfl rfl hinside,
    @Readout.draining_begun (settings.loadedBoard built words) settings.config (settings.job built)
      rfl rfl rfl rfl hinside (lt_channels settings.readouts 1).1 hrate
      (Nat.lt_of_lt_of_le hcount hcounts)⟩

/-- **The averages of an experiment on the simulated board** are those of all its shots. -/
theorem gather_averages {map : ChannelMap}
    (hbuild : settings.experiment.acquisition.build map = .ok built)
    (hcount : built.totalCount < UInt32.size)
    (h : Desk.perform (gather Desk.host .board settings built (simulatedBoard settings built)) d =
      (.ok (begun, summary, b'), d')) :
    summary.averages = binned Sample.simulated settings.readouts
      (max 1 settings.experiment.acquisition.points.toNat)
      settings.experiment.acquisition.reps.toNat := by
  obtain ⟨hreps, htotal, -, hpoints⟩ := Acquisition.readout_of_build hbuild
  obtain ⟨hinside, -⟩ := shots_of_build hbuild
  obtain ⟨words, loaded, x, x', n, d₁, hload, hlaunch, hfollow⟩ := gather_eq_ok h
  obtain rfl : loaded = settings.loadedBoard built words := load_eq_ok hload
  obtain ⟨hbegin, hdraining⟩ := begin_loadedBoard settings words hcount hinside
  have hfeeds := Readout.feeds_launched (Readout.tracks_new ..) rfl hlaunch hbegin hdraining rfl rfl
  obtain ⟨chunks, hcut, hall, haverages⟩ := follow_averages hfeeds rfl rfl hfollow
  have hshots : total chunks = settings.experiment.acquisition.reps.toNat *
      max 1 built.firstPoints.length := by
    rw [hall, hpoints]
    exact htotal
  rw [haverages, ← hpoints, ← Averages.empty_max_one]
  exact Averages.foldl_add_empty hreps (Nat.le_max_left ..) hcut hshots

/-- What a run on the simulated board has done, if it succeeds. -/
theorem run_eq_ok (hbridge : settings.bridge = none)
    (h : Desk.perform (settings.run Desk.host) d = (.ok (), d')) : ∃ built begun summary b d₁ d₂,
    Desk.perform (settings.experiment.build Desk.host) d = (.ok built, d₁) ∧
    built.totalCount < UInt32.size ∧
    Desk.perform (gather Desk.host .board settings built (simulatedBoard settings built)) d₁ =
      (.ok (begun, summary, b), d₂) ∧
    Desk.perform (conclude Desk.host .board settings built begun summary b) d₂ = (.ok (), d') := by
  obtain ⟨built, d₁, hbuild, h⟩ := Desk.perform_bind_eq_ok h
  rw [hbridge] at h
  dsimp only at h
  by_cases hnone : settings.readouts.isEmpty = true
  · rw [if_pos hnone] at h
    exact absurd h Desk.perform_throw_bind_ne_ok
  rw [if_neg hnone] at h
  by_cases hmany : built.totalCount ≥ UInt32.size
  · rw [if_pos hmany] at h
    exact absurd h Desk.perform_throw_bind_ne_ok
  rw [if_neg hmany] at h
  obtain ⟨⟨begun, summary, b⟩, d₂, hgather, hconclude⟩ := Desk.perform_bind_eq_ok h
  exact ⟨built, begun, summary, b, d₁, d₂, hbuild, Nat.lt_of_not_le hmany, hgather, hconclude⟩

/-- The averages come last in what is printed. -/
theorem conclude_printed {board : Board}
    (h : Desk.perform (conclude Desk.host .board settings built begun summary board) d =
      (.ok (), d')) : ∃ before, d'.printed =
        before ++ Desk.textOf (summary.averages.report settings.readouts built.firstPoints) := by
  obtain ⟨_, d₁, -, h⟩ := Desk.perform_bind_eq_ok h
  obtain ⟨now, d₂, -, h⟩ := Desk.perform_bind_eq_ok h
  dsimp only at h
  rw [Desk.perform_lift, Desk.printLines_eq] at h
  cases h
  dsimp only
  rw [Desk.textOf_append, ← String.append_assoc]
  exact ⟨_, rfl⟩

/-! ### Averages of runs -/

/-- What a run on the simulated board does up to the end of its readout. -/
def gathered (settings : Stream) : CommandT (StateM Desk) Averages := do
  let built ← settings.experiment.build Desk.host
  let (_, summary, _) ← gather Desk.host .board settings built (simulatedBoard settings built)
  return summary.averages

/-- **A run on the simulated board that ends without an error.** -/
structure Finishes (settings : Stream) (d d' : Desk) : Prop where
  simulated : settings.bridge = none
  succeeds : Desk.perform (settings.run Desk.host) d = (.ok (), d')

/-- **What a run adds up**: averages that it gathers, and reports at its end. -/
structure AddsUpTo (settings : Stream) (d d' : Desk) (averages : Averages) : Prop where
  gathers : ∃ d'', Desk.perform settings.gathered d = (.ok averages, d'')
  reports : ∃ before gains,
    d'.printed = before ++ Desk.textOf (averages.report settings.readouts gains)

/-- A run adds up all shots of its acquisition. -/
theorem Finishes.addsUpTo (h : settings.Finishes d d') :
    1 ≤ settings.experiment.acquisition.reps.toNat ∧ settings.AddsUpTo d d'
      (binned Sample.simulated settings.readouts
        (max 1 settings.experiment.acquisition.points.toNat)
        settings.experiment.acquisition.reps.toNat) := by
  obtain ⟨built, begun, summary, b, d₁, d₂, hbuild, hcount, hgather, hconclude⟩ :=
    run_eq_ok h.simulated h.succeeds
  obtain ⟨map, hprogram⟩ := Experiment.build_eq_ok hbuild
  have haverages := gather_averages hprogram hcount hgather
  obtain ⟨before, hprinted⟩ := conclude_printed hconclude
  rw [haverages] at hprinted
  refine ⟨(Acquisition.readout_of_build hprogram).1, ⟨d₂, ?_⟩, before, _, hprinted⟩
  rw [gathered, Desk.perform_bind_of_ok hbuild, Desk.perform_bind_of_ok hgather, ← haverages]
  rfl

/-- **Averages do not depend on how a stream was cut.**  Whatever chunks the samples of an
experiment come in, what they add up to is, for each readout and point, the sum of the samples of
the point's own shots.  Two runs of an acquisition on simulated boards that finish therefore gather
and report the same averages, whatever capacities, increments and strides they have, and however
the schedulers of their desks let client and worker take turns. -/
theorem averages_uncut :
    (∀ (sample : Nat → Nat → Sample) (readouts : List Nat) (reps points : Nat)
      (chunks : List Readout.Chunk), 1 ≤ reps → 1 ≤ points →
      CutFrom sample readouts 0 chunks → total chunks = reps * points →
        chunks.foldl Averages.add (Averages.empty readouts.length points reps) =
          binned sample readouts points reps) ∧
    ∀ (settings settings' : Stream) (d d' e e' : Desk),
      settings.Finishes d d' → settings'.Finishes e e' →
      settings'.experiment.acquisition = settings.experiment.acquisition →
      settings'.readouts = settings.readouts →
        let a := settings.experiment.acquisition
        let averages :=
          binned Sample.simulated settings.readouts (max 1 a.points.toNat) a.reps.toNat
        1 ≤ a.reps.toNat ∧ settings.AddsUpTo d d' averages ∧ settings'.AddsUpTo e e' averages := by
  refine ⟨fun sample readouts reps points chunks => Averages.foldl_add_empty, ?_⟩
  intro settings settings' d d' e e' hfinishes hfinishes' hacquisition hreadouts
  obtain ⟨hreps, hadds⟩ := hfinishes.addsUpTo
  obtain ⟨-, hadds'⟩ := hfinishes'.addsUpTo
  rw [hacquisition, hreadouts] at hadds'
  exact ⟨hreps, hadds, hadds'⟩

/-- Three shots at each of two gains, with the buffer and the counter of a small board. -/
def smallBoard : Stream :=
  { experiment := { acquisition := { reps := 3, points := 2 } }
    capacity := 4, increment := 1, readouts := [1, 0] }

/-- The same on a board that counts in larger steps, with a stride that does not divide them. -/
def largeBoard : Stream :=
  { smallBoard with capacity := 9, increment := 5, stride := some 3 }

/-- A desk whose scheduler keeps the worker waiting, then lets it send several chunks at once. -/
def unevenDesk : Desk := { script := [0, 3, 0, 0, 4, 1] }

/-- The small board and the large one cut the points in different places, and chunks may cut them
again elsewhere. -/
theorem averages_uncut_twoBoards :
    let averages : Averages :=
      { reps := 3, shots := 6
        sums := [#[⟨3000003, -3⟩, ⟨3000012, -12⟩], #[⟨3, -3⟩, ⟨12, -12⟩]] }
    let chunk (first length : Nat) : Readout.Chunk :=
      { count := first + length, address := 0, length
        samples := [Readout.samplesFrom 1 first length, Readout.samplesFrom 0 first length] }
    [chunk 0 4, chunk 4 1, chunk 5 1].foldl Averages.add (Averages.empty 2 2 3) = averages ∧
      ∃ d' e', smallBoard.Finishes unevenDesk d' ∧ largeBoard.Finishes {} e' ∧
        smallBoard.AddsUpTo unevenDesk d' averages ∧ largeBoard.AddsUpTo {} e' averages := by
  intro averages chunk
  obtain ⟨hcut, hruns⟩ := averages_uncut
  have hbinned : binned Sample.simulated [1, 0] 2 3 = averages := by decide +kernel
  have hchunks := hcut Sample.simulated [1, 0] 3 2 [chunk 0 4, chunk 4 1, chunk 5 1] (by decide)
    (by decide) ⟨rfl, rfl, rfl, trivial⟩ rfl
  have hfinishes (settings : Stream) (d : Desk) (hbridge : settings.bridge = none)
      (hrun : (Desk.perform (settings.run Desk.host) d).1.isOk = true) :
      ∃ d', settings.Finishes d d' := by
    rcases hperform : Desk.perform (settings.run Desk.host) d with ⟨e | ⟨⟨⟩⟩, d'⟩
    · rw [hperform] at hrun
      cases hrun
    · exact ⟨d', hbridge, hperform⟩
  obtain ⟨d', hsmall⟩ := hfinishes smallBoard unevenDesk rfl (by decide +kernel)
  obtain ⟨e', hlarge⟩ := hfinishes largeBoard {} rfl (by decide +kernel)
  obtain ⟨-, hadds, hadds'⟩ := hruns smallBoard largeBoard unevenDesk d' {} e' hsmall hlarge rfl rfl
  rw [← hbinned]
  exact ⟨hchunks, d', e', hsmall, hlarge, hadds, hadds'⟩

end Stream
end PulseProcessor.CommandLine
