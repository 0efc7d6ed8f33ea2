import Mathlib.Data.List.Forall2
import PulseProcessor.Bridge.Remote
import PulseProcessor.Proofs.Board.Recording
import PulseProcessor.Proofs.Bridge.Serving

/-! # A bridge is transparent

Requests that go to a board over a bridge take it through the same states as requests made on the
board itself, and are answered in the same way, as far as statuses can say it
(`Remote.transparent`).

The reason is that a call leaves nothing behind.  An agent takes exactly the bytes of the request,
since these can be told from what follows (`ofBytes_bytes`), and its client takes exactly those of
the reply, whether the request was refused or not (`Line.receive_reply`).  So the next call finds
both directions empty (`Remote.AtRest`), and a run of calls is a row of single ones.  What a status
leaves out of an error of a transfer the client knows from its request.
-/

namespace PulseProcessor

/-! ### Runs of requests -/

/-- A request together with its answer. -/
abbrev Answered := (r : Request) × Except DeviceError r.Answer

namespace Device

variable {σ : Type} (device : Device σ)

/-- The state of a device after some requests. -/
def after (s : σ) : List Request → σ
  | [] => s
  | r :: rs => after (device.handle s r).2 rs

/-- The answers of a device to some requests. -/
def answers (s : σ) : List Request → List Answered
  | [] => []
  | r :: rs => ⟨r, (device.handle s r).1⟩ :: answers (device.handle s r).2 rs

end Device

/-! ### What a client is told -/

/-- **Errors of one kind**, with any numbers. -/
inductive DeviceError.SameVariant : DeviceError → DeviceError → Prop
  | timeout (ms ms' : Nat) : SameVariant (.timeout ms) (.timeout ms')
  | transferOutOfRange (address length capacity address' length' capacity' : Nat) :
      SameVariant (.transferOutOfRange address length capacity)
        (.transferOutOfRange address' length' capacity')
  | unknownChannel (channel channel' : Nat) :
      SameVariant (.unknownChannel channel) (.unknownChannel channel')
  | addressOutOfRange (addr addr' : Nat) :
      SameVariant (.addressOutOfRange addr) (.addressOutOfRange addr')
  | link (fault fault' : LinkFault) : SameVariant (.link fault) (.link fault')
  | protocol (fault fault' : ProtocolFault) : SameVariant (.protocol fault) (.protocol fault')
  | poisoned : SameVariant .poisoned .poisoned
  | crashed : SameVariant .crashed .crashed

/-- Whether a request is for a transfer. -/
def Request.isTransfer : Request → Bool
  | .transfer .. => true
  | _ => false

/-- **What a client is told of an answer**: all of a result, and of an error its kind.  An error of
a transfer it is told in full. -/
inductive Told : Answered → Answered → Prop
  | result (r : Request) (a : r.Answer) : Told ⟨r, .ok a⟩ ⟨r, .ok a⟩
  | error (r : Request) {e told : DeviceError} (same : e.SameVariant told)
      (full : r.isTransfer = true → told = e) : Told ⟨r, .error e⟩ ⟨r, .error told⟩

namespace Bridge

/-! ### Reading a reply -/

/-- What the status of an error says. -/
def reported : DeviceError → DeviceError
  | .addressOutOfRange _ => .addressOutOfRange 0
  | .unknownChannel _ => .unknownChannel 0
  | .transferOutOfRange .. => .transferOutOfRange 0 0 0
  | .timeout _ => .timeout 0
  | _ => .protocol (.failure 5)

theorem ofStatus_status (e : DeviceError) : ofStatus (status e) = .error (reported e) := by
  cases e <;> rfl

theorem status_lt (e : DeviceError) : status e < Nat.pow 256 4 := by
  unfold status
  split <;> decide

/-- **A reply can carry the result**: it has as many words as were asked for, and a capacity fits
its field. -/
def Fits : (r : Request) → r.Answer → Prop
  | .capacity, n => Nat.lt n UInt32.size
  | .transfer _ _ length _, words => List.length words = length
  | .read _, _ | .write .., _ | .start, _ | .stop, _ | .load _, _ => True

variable {r : Request} {ending : LinkFault}

theorem Line.readPayload_payload {a : r.Answer} (h : Fits r a) (ending : LinkFault) :
    Line.readPayload r ⟨payload r a, ending⟩ = (.ok a, ⟨[], ending⟩) := by
  cases r with
  | capacity =>
    have htake : takeNumber? 4 (littleEndian 4 a) = some (a, []) := takeNumber?_last h
    simp [Line.readPayload, Line.read, payload, htake]
  | read addr =>
    have htake : takeNumber? 4 (littleEndian 4 (UInt32.toNat a)) = some (UInt32.toNat a, []) :=
      takeNumber?_last (UInt32.toNat_lt a)
    have hvalue : UInt32.ofNat (UInt32.toNat a) = a := UInt32.ofNat_toNat
    simp only [Line.readPayload, Line.read, payload, htake, Except.map, hvalue]
  | transfer channel address length timeout =>
    have htake : takeWords? length (wordBytes a) = some (a, []) :=
      takeWords?_eq_some_iff.2 ⟨h, (List.append_nil _).symm⟩
    simp [Line.readPayload, Line.read, payload, htake]
  | write | start | stop | load => rfl

/-- **A reply is read in full, and no more than it**, be it a result or an error. -/
theorem Line.receive_reply {answer : Except DeviceError r.Answer}
    (h : ∀ a, answer = .ok a → Fits r a) :
    Line.receive r ⟨reply r answer, ending⟩ = (answer.mapError reported, ⟨[], ending⟩) := by
  cases answer with
  | ok a =>
    have htake : takeNumber? 4 (littleEndian 4 0 ++ payload r a) = some (0, payload r a) :=
      takeNumber?_of_lt (by decide) _
    have hpayload := Line.readPayload_payload (h a rfl) ending
    simp [Line.receive, Line.readStatus, Line.read, reply, htake, ofStatus, hpayload,
      Except.mapError, bind, Except.bind]
  | error e =>
    have htake := takeNumber?_last (status_lt e)
    simp [Line.receive, Line.readStatus, Line.read, reply, htake, ofStatus_status,
      Except.mapError, bind, Except.bind]

/-! ### One call -/

variable {σ : Type} {device : Device σ} {x : Remote σ}

namespace Remote

/-- **Between two calls**: nothing is under way in either direction, and the agent waits for the
next request. -/
structure AtRest (x : Remote σ) : Prop where
  inbox : x.line.inbox = []
  served : x.served = .ok ()

/-- **A call brings both directions back to rest**, with the device in the state that the request
has left it in. -/
theorem AtRest.call (hx : x.AtRest) (hr : r.Sendable) {answer : Except DeviceError r.Answer}
    {s : σ} (hhandle : device.handle x.far r = (answer, s)) (hanswer : answer ≠ .error .crashed)
    (hfits : ∀ a, answer = .ok a → Fits r a) (capacity : Nat) :
    ∃ y, x.call device capacity r =
        ((answer.mapError reported).mapError (completeFault capacity r), y) ∧
      y.AtRest ∧ y.far = s := by
  have hserve : serve device x.far r.bytes = ⟨s, reply r answer, .ok ()⟩ := by
    have hone := serve_requestBytes device x.far (List.forall_mem_singleton.2 hr)
    rw [execute_cons_answered hhandle hanswer] at hone
    simpa [execute] using hone
  have hsend : x.send device r.bytes = ⟨s, ⟨reply r answer, .silence⟩, .ok ()⟩ := by
    simp [Remote.send, hx.served, hx.inbox, hserve]
  refine ⟨⟨s, ⟨[], .silence⟩, .ok ()⟩, ?_, ⟨rfl, rfl⟩, rfl⟩
  simp [Remote.call, hsend, Line.answer, Line.receive_reply hfits]

/-- Whatever comes of a call, it leaves a device that is served as a direct request does. -/
theorem far_call (device : Device σ) (hx : x.served = .ok ()) (hr : r.Sendable) (capacity : Nat) :
    (x.call device capacity r).2.far = (device.handle x.far r).2 ∧
      ((x.call device capacity r).2.served ≠ .ok () →
        (device.handle x.far r).1 = .error .crashed) := by
  have hone := serve_requestBytes device x.far (List.forall_mem_singleton.2 hr)
  rw [requestBytes_cons, requestBytes_nil, List.append_nil] at hone
  rcases hhandle : device.handle x.far r with ⟨answer, s⟩
  by_cases hanswer : answer = .error .crashed
  · subst hanswer
    rw [execute_cons_crashed hhandle] at hone
    refine ⟨?_, fun _ => rfl⟩
    simp [Remote.call, Remote.send, hx, hone]
  · rw [execute_cons_answered hhandle hanswer] at hone
    refine ⟨?_, fun hserved => absurd ?_ hserved⟩
    · simp [Remote.call, Remote.send, hx, hone, execute]
    · simp [Remote.call, Remote.send, hx, hone, execute]

/-- **A device that breaks down in a call ends the connection**, and that is all its client sees. -/
theorem AtRest.call_crashed (hx : x.AtRest) (hr : r.Sendable) {s : σ}
    (hhandle : device.handle x.far r = (.error .crashed, s)) (capacity : Nat) :
    x.call device capacity r = (.error (completeFault capacity r (.link .unexpectedEnd)),
      ⟨s, ⟨[], .unexpectedEnd⟩, .error .crashed⟩) := by
  have hserve : serve device x.far r.bytes = ⟨s, [], .error .crashed⟩ := by
    have hone := serve_requestBytes device x.far (List.forall_mem_singleton.2 hr)
    rw [execute_cons_crashed hhandle] at hone
    simpa using hone
  have hsend : x.send device r.bytes = ⟨s, ⟨[], .unexpectedEnd⟩, .error .crashed⟩ := by
    simp [Remote.send, hx.served, hx.inbox, hserve]
  rw [Remote.call, hsend]
  rfl

/-- Nothing gets through to a device that is served no more. -/
theorem far_call_of_error (device : Device σ) {e : DeviceError} (hx : x.served = .error e)
    (r : Request) (capacity : Nat) :
    (x.call device capacity r).2.far = x.far ∧ (x.call device capacity r).2.served = .error e := by
  have hsend : x.send device r.bytes = x := by simp [Remote.send, hx]
  constructor
  · simp [Remote.call, hsend]
  · simp [Remote.call, hsend, hx]

end Remote
end Bridge

/-! ### The board at the far end -/

namespace Board

open Bridge

/-- **A board that cannot be broken down over a bridge**: it has slots, and its counter never stands
for more samples than there are numbers. -/
structure Sturdy (b : Board) : Prop where
  capacity_pos : 0 < b.capacity
  fits : (UInt32.size - 1) * b.samplesPerCount < UInt64.size

/-- **What may come of a request to a board.** -/
inductive Outcome (b : Board) (r : Request) : Except DeviceError r.Answer → Board → Prop
  | result {a : r.Answer} {b' : Board} (fits : b.capacity < UInt32.size → Fits r a)
      (capacity : b'.capacity = b.capacity) (rate : b'.samplesPerCount = b.samplesPerCount)
      (poisoned : b'.poisoned = b.poisoned) : Outcome b r (.ok a) b'
  /-- The client can make out what was wrong. -/
  | refused {e : DeviceError} (alive : e ≠ .crashed)
      (told : Told ⟨r, .error e⟩ ⟨r, .error (completeFault b.capacity r (reported e))⟩) :
      Outcome b r (.error e) b
  | poisoned (poisoned : b.poisoned = true) : Outcome b r (.error .poisoned) b
  | breakdown {b' : Board} (capacity : b'.capacity = b.capacity) (poisoned : b'.poisoned = true)
      (fragile : r.Sendable → ¬ b.Sturdy) : Outcome b r (.error .crashed) b'

variable {b : Board} {r : Request}

/-- A sturdy board has slots and numbers for all counts. -/
theorem Sturdy.ticks (h : b.Sturdy) : b.Ticks where
  target_lt := by
    have hle : b.nextCount * b.samplesPerCount ≤ (UInt32.size - 1) * b.samplesPerCount :=
      Nat.mul_le_mul_right _ (Nat.le_trans (Nat.min_le_left ..) (Nat.min_le_right ..))
    exact Nat.lt_of_le_of_lt hle h.fits
  stored hzero := absurd hzero (Nat.pos_iff_ne_zero.1 h.capacity_pos)

theorem outcome_read (addr : UInt32) :
    Outcome b (.read addr) (b.read addr).1 (b.read addr).2 := by
  rw [Board.read]
  by_cases hpoisoned : b.poisoned = true
  · rw [if_pos hpoisoned]
    exact .poisoned hpoisoned
  rw [if_neg hpoisoned]
  split
  · exact .refused (by simp) (.error _ (.addressOutOfRange _ _) (by simp [Request.isTransfer]))
  by_cases hcounts : b.running ∧ addr = b.counterAddr
  · rw [if_pos hcounts]
    by_cases hticks : b.Ticks
    · rw [tick_eq hticks]
      exact .result (fun _ => trivial) rfl rfl rfl
    · rw [tick_of_not_ticks hticks]
      exact .breakdown rfl rfl fun _ hsturdy => hticks hsturdy.ticks
  · rw [if_neg hcounts]
    exact .result (fun _ => trivial) rfl rfl rfl

theorem outcome_write (addr value : UInt32) :
    Outcome b (.write addr value) (b.write addr value).1 (b.write addr value).2 := by
  rw [Board.write]
  by_cases hpoisoned : b.poisoned = true
  · rw [if_pos hpoisoned]
    exact .poisoned hpoisoned
  rw [if_neg hpoisoned]
  split
  · exact .refused (by simp) (.error _ (.addressOutOfRange _ _) (by simp [Request.isTransfer]))
  dsimp only
  split
  · split
    · rename_i hmany
      refine .breakdown rfl rfl fun _ hsturdy => absurd hmany (Nat.not_le.2 ?_)
      have hvalue : value.toNat ≤ UInt32.size - 1 := Nat.le_sub_one_of_lt value.toNat_lt
      exact Nat.lt_of_le_of_lt (Nat.mul_le_mul_right _ hvalue) hsturdy.fits
    · exact .result (fun _ => trivial) rfl rfl rfl
  · exact .result (fun _ => trivial) rfl rfl rfl

theorem outcome_transfer (channel address length timeout : Nat) :
    Outcome b (.transfer channel address length timeout)
      (b.transfer channel address length timeout).1
      (b.transfer channel address length timeout).2 := by
  rw [Board.transfer]
  by_cases hpoisoned : b.poisoned = true
  · rw [if_pos hpoisoned]
    exact .poisoned hpoisoned
  rw [if_neg hpoisoned]
  split
  · exact .refused (by simp) (.error _ (.timeout _ _) fun _ => rfl)
  split
  · rename_i hchannel
    split
    · split
      · -- The fields of a request are too short for such an end.
        rename_i hend
        refine .breakdown rfl rfl fun hsendable => ?_
        obtain ⟨-, haddress, hlength, -⟩ := hsendable
        have hsize : UInt32.size = 4294967296 := rfl
        have hsize' : UInt64.size = 18446744073709551616 := rfl
        omega
      · exact .refused (by simp) (.error _ (.transferOutOfRange ..) fun _ => rfl)
    · rename_i hwindow
      refine .result (fun _ => ?_) rfl rfl rfl
      rw [extract_eq hchannel (Nat.le_of_not_lt hwindow)]
      show ((List.range' address length).map (b.buffers.wordAt channel)).length = length
      rw [List.length_map, List.length_range']
  · exact .refused (by simp) (.error _ (.unknownChannel _ _) fun _ => rfl)

theorem outcome_load (words : List Word) :
    Outcome b (.load words) (b.load words).1 (b.load words).2 := by
  rw [Board.load]
  split
  · exact .refused (by simp) (.error _ (.addressOutOfRange _ _) (by simp [Request.isTransfer]))
  · by_cases hpoisoned : b.poisoned = true
    · rw [if_pos hpoisoned]
      exact .poisoned hpoisoned
    · rw [if_neg hpoisoned]
      exact .result (fun _ => trivial) rfl rfl rfl

theorem outcome_handle (b : Board) (r : Request) : Outcome b r (b.handle r).1 (b.handle r).2 := by
  cases r with
  | capacity => exact .result (fun h => h) rfl rfl rfl
  | read addr => exact outcome_read addr
  | write addr value => exact outcome_write addr value
  | start =>
    rw [Board.handle, Board.start]
    by_cases hpoisoned : b.poisoned = true
    · rw [if_pos hpoisoned]
      exact .poisoned hpoisoned
    · rw [if_neg hpoisoned]
      exact .result (fun _ => trivial) rfl rfl rfl
  | stop =>
    rw [Board.handle, Board.stop]
    by_cases hpoisoned : b.poisoned = true
    · rw [if_pos hpoisoned]
      exact .poisoned hpoisoned
    · rw [if_neg hpoisoned]
      exact .result (fun _ => trivial) rfl rfl rfl
  | transfer channel address length timeout =>
    exact outcome_transfer channel address length timeout
  | load words => exact outcome_load words

theorem capacity_handle : (b.handle r).2.capacity = b.capacity := by
  have houtcome := outcome_handle b r
  generalize (b.handle r).1 = answer, (b.handle r).2 = b' at houtcome
  cases houtcome with
  | result _ capacity => exact capacity
  | refused | poisoned => rfl
  | breakdown capacity => exact capacity

theorem poisoned_of_crashed (h : (b.handle r).1 = .error .crashed) :
    (b.handle r).2.poisoned = true := by
  have houtcome := outcome_handle b r
  rw [h] at houtcome
  generalize (b.handle r).2 = b' at houtcome
  cases houtcome with
  | refused alive => exact absurd rfl alive
  | breakdown _ poisoned => exact poisoned

/-- A board that has broken down stays so. -/
theorem intact_of_handle (h : (b.handle r).2.poisoned = false) : b.poisoned = false := by
  cases hpoisoned : b.poisoned with
  | false => rfl
  | true =>
    rw [handle_poisoned hpoisoned, hpoisoned] at h
    cases h

theorem intact_of_after {rs : List Request} (h : (device.after b rs).poisoned = false) :
    b.poisoned = false := by
  induction rs generalizing b with
  | nil => exact h
  | cons r rs ih => exact intact_of_handle (ih h)

/-- **Requests that a bridge can carry leave a sturdy board sturdy**, and do not break it down. -/
theorem Sturdy.handle (h : b.Sturdy) (hr : r.Sendable) :
    (b.handle r).2.Sturdy ∧ (b.handle r).2.poisoned = b.poisoned := by
  have houtcome := outcome_handle b r
  generalize (b.handle r).1 = answer, (b.handle r).2 = b' at houtcome
  cases houtcome with
  | result _ capacity rate poisoned =>
    exact ⟨⟨capacity ▸ h.capacity_pos, rate ▸ h.fits⟩, poisoned⟩
  | refused | poisoned => exact ⟨h, rfl⟩
  | breakdown _ _ fragile => exact absurd h (fragile hr)

theorem Sturdy.intact_after (h : b.Sturdy) (hintact : b.poisoned = false) {rs : List Request}
    (hrs : ∀ r ∈ rs, r.Sendable) : (device.after b rs).poisoned = false := by
  induction rs generalizing b with
  | nil => exact hintact
  | cons r rs ih =>
    obtain ⟨hr, hrs⟩ := List.forall_mem_cons.1 hrs
    obtain ⟨hnext, hsame⟩ := h.handle hr
    exact ih hnext (hsame.trans hintact) hrs

end Board

/-! ### Calls over a bridge -/

namespace Bridge

variable {b : Board} {x : Remote Board} {r : Request} {rs : List Request} {capacity : Nat}

/-- The board at the far end of a connection, as its client has it. -/
abbrev bridged (capacity : Nat) : Device (Remote Board) := Remote.asDevice Board.device capacity

/-- Only the capacity is known at the near end. -/
theorem bridged_handle_eq_call (h : r ≠ .capacity) :
    (bridged capacity).handle x r = x.call Board.device capacity r := by
  cases r with
  | capacity => exact absurd rfl h
  | _ => rfl

/-- **A single call is transparent**, unless the board breaks down in it. -/
theorem bridged_handle (hx : x.AtRest) (hr : r.Sendable) (hcapacity : x.far.capacity = capacity)
    (hsize : capacity < UInt32.size) (hintact : (x.far.handle r).2.poisoned = false) :
    ((bridged capacity).handle x r).2.AtRest ∧
      ((bridged capacity).handle x r).2.far = (x.far.handle r).2 ∧
      Told ⟨r, (x.far.handle r).1⟩ ⟨r, ((bridged capacity).handle x r).1⟩ := by
  subst hcapacity
  by_cases hlocal : r = .capacity
  · subst hlocal
    exact ⟨hx, rfl, .result .capacity x.far.capacity⟩
  · have houtcome := x.far.outcome_handle r
    have hhandle : Board.device.handle x.far r = ((x.far.handle r).1, (x.far.handle r).2) := rfl
    rw [bridged_handle_eq_call hlocal]
    generalize (x.far.handle r).1 = answer, (x.far.handle r).2 = b' at houtcome hhandle hintact
    cases houtcome with
    | @result a b' fits =>
      have hfits : ∀ a', Except.ok (ε := DeviceError) a = .ok a' → Fits r a' := by
        intro a' ha'
        cases ha'
        exact fits hsize
      obtain ⟨y, hy, hrest, hfar⟩ := hx.call hr hhandle nofun hfits x.far.capacity
      rw [hy]
      exact ⟨hrest, hfar, .result r a⟩
    | @refused e alive told =>
      have hanswer : Except.error (α := r.Answer) e ≠ .error .crashed := by
        intro h
        cases h
        exact alive rfl
      obtain ⟨y, hy, hrest, hfar⟩ := hx.call hr hhandle hanswer nofun x.far.capacity
      rw [hy]
      exact ⟨hrest, hfar, told⟩
    | poisoned poisoned => exact absurd poisoned (Bool.eq_false_iff.1 hintact)
    | breakdown _ poisoned => exact absurd poisoned (Bool.eq_false_iff.1 hintact)

/-- **Calls in a row are transparent.** -/
theorem bridged_answers (hx : x.AtRest) (hrs : ∀ r ∈ rs, r.Sendable)
    (hcapacity : x.far.capacity = capacity) (hsize : capacity < UInt32.size)
    (hintact : (Board.device.after x.far rs).poisoned = false) :
    ((bridged capacity).after x rs).AtRest ∧
      List.Forall₂ Told (Board.device.answers x.far rs) ((bridged capacity).answers x rs) := by
  induction rs generalizing x with
  | nil => exact ⟨hx, .nil⟩
  | cons r rs ih =>
    obtain ⟨hr, hrs⟩ := List.forall_mem_cons.1 hrs
    obtain ⟨hrest, hfar, htold⟩ :=
      bridged_handle hx hr hcapacity hsize (Board.intact_of_after hintact)
    have hsame : ((bridged capacity).handle x r).2.far.capacity = capacity := by
      rw [hfar, Board.capacity_handle, hcapacity]
    have hgo := ih hrest hrs hsame (by rw [hfar]; exact hintact)
    rw [hfar] at hgo
    exact ⟨hgo.1, .cons htold hgo.2⟩

/-- The board at the far end goes through the states of a board that is used directly, even if it
breaks down. -/
theorem far_bridged_after (hx : x.served = .ok () ∨ x.far.poisoned = true)
    (hrs : ∀ r ∈ rs, r.Sendable) :
    ((bridged capacity).after x rs).far = Board.device.after x.far rs := by
  induction rs generalizing x with
  | nil => rfl
  | cons r rs ih =>
    obtain ⟨hr, hrs⟩ := List.forall_mem_cons.1 hrs
    have hstep : ((bridged capacity).handle x r).2.far = (x.far.handle r).2 ∧
        (((bridged capacity).handle x r).2.served = .ok () ∨
          (x.far.handle r).2.poisoned = true) := by
      by_cases hlocal : r = .capacity
      · subst hlocal
        exact ⟨rfl, hx⟩
      · rw [bridged_handle_eq_call hlocal]
        cases hserved : x.served with
        | ok _ =>
          obtain ⟨hfar, hend⟩ := Remote.far_call Board.device hserved hr capacity
          refine ⟨hfar, ?_⟩
          by_cases hstill : (x.call Board.device capacity r).2.served = .ok ()
          · exact .inl hstill
          · exact .inr (Board.poisoned_of_crashed (hend hstill))
        | error e =>
          obtain ⟨hfar, -⟩ :=
            Remote.far_call_of_error Board.device hserved r capacity
          have hpoisoned := hx.resolve_left (by rw [hserved]; nofun)
          rw [Board.handle_poisoned hpoisoned]
          exact ⟨hfar, .inr hpoisoned⟩
    have hgo := ih (x := ((bridged capacity).handle x r).2) (by rw [hstep.1]; exact hstep.2) hrs
    rw [hstep.1] at hgo
    exact hgo

/-! ### A connection as a whole -/

/-- What a client sends for its calls: it asks for the capacity when it connects, and not again. -/
def sent (rs : List Request) : List Request := .capacity :: rs.filter (· ≠ .capacity)

/-- An agent that carries out requests on a board ends well unless the board breaks down. -/
theorem execute_of_intact (hintact : (Board.device.after b rs).poisoned = false) :
    (execute Board.device b rs).state = Board.device.after b rs ∧
      (execute Board.device b rs).outcome = .ok () := by
  induction rs generalizing b with
  | nil => exact ⟨rfl, rfl⟩
  | cons r rs ih =>
    have hanswer : (b.handle r).1 ≠ .error .crashed := by
      intro h
      have hpoisoned := Board.poisoned_of_crashed h
      exact absurd hpoisoned (Bool.eq_false_iff.1 (Board.intact_of_after hintact))
    rw [execute_cons_answered (show Board.device.handle b r = (_, _) from rfl) hanswer]
    exact ih hintact

theorem after_filter_capacity (b : Board) (rs : List Request) :
    Board.device.after b (rs.filter (· ≠ .capacity)) = Board.device.after b rs := by
  induction rs generalizing b with
  | nil => rfl
  | cons r rs ih =>
    by_cases hlocal : r = .capacity
    · subst hlocal
      rw [List.filter_cons_of_neg (by simp)]
      exact ih b
    · rw [List.filter_cons_of_pos (by simpa using hlocal)]
      exact ih _

/-- **All the bytes of a connection are the bytes of its requests.**  An agent that is sent them at
once carries out what it would have carried out one by one, and waits for another request. -/
theorem serve_sent (hrs : ∀ r ∈ rs, r.Sendable)
    (hintact : (Board.device.after b rs).poisoned = false) :
    (serve Board.device b (requestBytes (sent rs))).state = Board.device.after b rs ∧
      (serve Board.device b (requestBytes (sent rs))).outcome = .ok () := by
  have hafter : Board.device.after b (sent rs) = Board.device.after b rs :=
    after_filter_capacity b rs
  have hsent : ∀ r ∈ sent rs, r.Sendable := by
    refine List.forall_mem_cons.2 ⟨trivial, fun r hr => ?_⟩
    exact hrs r (List.mem_filter.1 hr).1
  rw [serve_requestBytes _ _ hsent, ← hafter]
  exact execute_of_intact (by rw [hafter]; exact hintact)

theorem connect_board (hsize : b.capacity < UInt32.size) :
    ∃ x, Remote.connect Board.device b = (.ok b.capacity, x) ∧ x.AtRest ∧ x.far = b := by
  have hrest : ({ far := b } : Remote Board).AtRest := ⟨rfl, rfl⟩
  have hfits (n : Nat) (h : Except.ok (ε := DeviceError) b.capacity = .ok n) :
      Fits .capacity n := by
    cases h
    exact hsize
  have hhandle : Board.device.handle b .capacity = (.ok b.capacity, b) := rfl
  have hsendable : Request.capacity.Sendable := trivial
  exact hrest.call hsendable hhandle nofun hfits 0

/-- **A bridge is transparent.**  A client that connects to an agent for a board learns the board's
capacity, and whatever it then asks for:

* the board goes through the states that it goes through if it is asked directly;
* if the board does not break down, which a sturdy one never does, every answer is the board's own,
  or an error of the same kind, and of a transfer the very same error;
* and no byte is left over in either direction: the client has read all that it was sent, and the
  agent has taken all the bytes as requests and waits for the next.

Every initial part of a run of calls is a run of calls itself, so all this holds after each call. -/
theorem Remote.transparent (hb : b.poisoned = false) (hsize : b.capacity < UInt32.size)
    (hrs : ∀ r ∈ rs, r.Sendable) :
    ∃ x, Remote.connect Board.device b = (.ok b.capacity, x) ∧
      ((bridged b.capacity).after x rs).far = Board.device.after b rs ∧
      (b.Sturdy → (Board.device.after b rs).poisoned = false) ∧
      ((Board.device.after b rs).poisoned = false →
        List.Forall₂ Told (Board.device.answers b rs) ((bridged b.capacity).answers x rs) ∧
        ((bridged b.capacity).after x rs).AtRest ∧
        (serve Board.device b (requestBytes (sent rs))).state = Board.device.after b rs ∧
        (serve Board.device b (requestBytes (sent rs))).outcome = .ok ()) := by
  obtain ⟨x, hconnect, hrest, hfar⟩ := connect_board hsize
  subst hfar
  refine ⟨x, hconnect, far_bridged_after (.inl hrest.served) hrs,
    fun hsturdy => hsturdy.intact_after hb hrs, fun hintact => ?_⟩
  obtain ⟨hrest', htold⟩ := bridged_answers hrest hrs rfl hsize hintact
  obtain ⟨hstate, houtcome⟩ := serve_sent hrs hintact
  exact ⟨htold, hrest', hstate, houtcome⟩

/-- Over a bridge, a board that can hold sixteen samples is started, counts, delivers a sample, and
refuses a transfer and an address. -/
theorem Remote.transparent_sixteen :
    let b : Board := { capacity := 16, channels := 1 }
    let rs : List Request :=
      [.start, .read 1, .transfer 0 0 1 100, .transfer 7 0 1 100, .read 2000, .capacity]
    b.poisoned = false ∧ b.capacity < UInt32.size ∧ (∀ r ∈ rs, r.Sendable) ∧ b.Sturdy ∧
      ∃ x, Remote.connect Board.device b = (.ok 16, x) ∧
        ((bridged 16).after x rs).far = Board.device.after b rs ∧
        List.Forall₂ Told (Board.device.answers b rs) ((bridged 16).answers x rs) ∧
        ((bridged 16).after x rs).AtRest := by
  intro b rs
  have hsize : b.capacity < UInt32.size := by decide
  have hrs : ∀ r ∈ rs, r.Sendable := by decide
  have hsturdy : b.Sturdy := ⟨by decide, by decide⟩
  obtain ⟨x, hconnect, hfar, hintact, hall⟩ := Remote.transparent (b := b) rfl hsize hrs
  obtain ⟨htold, hrest, -⟩ := hall (hintact hsturdy)
  exact ⟨rfl, hsize, hrs, hsturdy, x, hconnect, hfar, htold, hrest⟩

/-- **A board that breaks down is not told from a connection that ends**: one without slots does so
at the first reading of its counter. -/
theorem Remote.crash_not_told :
    let b : Board := { capacity := 0, channels := 1 }
    let rs : List Request := [.start, .read 1, .read 1]
    b.capacity < UInt32.size ∧ (∀ r ∈ rs, r.Sendable) ∧
      Board.device.answers b rs =
        [⟨.start, .ok ()⟩, ⟨.read 1, .error .crashed⟩, ⟨.read 1, .error .poisoned⟩] ∧
      ∃ x, Remote.connect Board.device b = (.ok 0, x) ∧
        (bridged 0).answers x rs = [⟨.start, .ok ()⟩, ⟨.read 1, .error (.link .unexpectedEnd)⟩,
          ⟨.read 1, .error (.link .unexpectedEnd)⟩] ∧
        ¬ List.Forall₂ Told (Board.device.answers b rs) ((bridged 0).answers x rs) := by
  intro b rs
  have hrs : ∀ r ∈ rs, r.Sendable := by decide
  have hdirect : Board.device.answers b rs =
      [⟨.start, .ok ()⟩, ⟨.read 1, .error .crashed⟩, ⟨.read 1, .error .poisoned⟩] := rfl
  obtain ⟨x, hconnect, hrest, hfar⟩ := connect_board (b := b) (by decide)
  obtain ⟨y, hstart, hrest', hfar'⟩ := hrest.call (r := .start) (hrs _ (by simp [rs]))
    (show Board.device.handle x.far .start = (.ok (), (b.handle .start).2) by rw [hfar]; rfl)
    nofun (fun _ _ => trivial) 0
  have hstart : (bridged 0).handle x .start = (.ok (), y) := hstart
  obtain ⟨z, hread, hagain⟩ : ∃ z, (bridged 0).handle y (.read 1) =
      (.error (.link .unexpectedEnd), z) ∧
      ((bridged 0).handle z (.read 1)).1 = .error (.link .unexpectedEnd) :=
    ⟨_, hrest'.call_crashed (hrs (.read 1) (by simp [rs]))
      (show Board.device.handle y.far (.read 1) =
        (.error .crashed, ((b.handle .start).2.handle (.read 1)).2) by rw [hfar']; rfl) 0, rfl⟩
  have hbridged : (bridged 0).answers x rs = [⟨.start, .ok ()⟩,
      ⟨.read 1, .error (.link .unexpectedEnd)⟩, ⟨.read 1, .error (.link .unexpectedEnd)⟩] := by
    rw [Device.answers, hstart, Device.answers, hread, Device.answers, hagain, Device.answers]
  refine ⟨by decide, hrs, hdirect, x, hconnect, hbridged, ?_⟩
  rw [hdirect, hbridged]
  intro htold
  cases htold with
  | cons _ htold =>
    cases htold with
    | cons htold _ =>
      cases htold with
      | error _ same _ => nomatch same

end Bridge
end PulseProcessor
